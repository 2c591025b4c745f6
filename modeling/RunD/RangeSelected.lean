/-
A selected plan reproduces the candidate that was chosen
(`rangePlan_reproduces`).

Every evaluation that is found was made by one of the builders, each for a
candidate of its own path; the schedule of the builder is then compared with
the one the plan derives, path by path.
-/
import RunD.RangeReproduce

namespace RunD.Range

/-! ### The evaluations that are found -/

section Found

variable {shape : RangeShape} {caps : RangeCaps} {evaluation : CandidateEvaluation}

/-- A fold that keeps what is selected or takes the next one ends with what it started from or
with one of the list. -/
theorem foldl_select {choose : Option CandidateEvaluation → CandidateEvaluation →
      Option CandidateEvaluation}
    (hchoose : ∀ selected next, choose selected next = selected ∨ choose selected next = some next)
    (rest : List CandidateEvaluation) (selected : Option CandidateEvaluation)
    (h : rest.foldl choose selected = some evaluation) :
    selected = some evaluation ∨ evaluation ∈ rest := by
  induction rest generalizing selected with
  | nil => exact Or.inl h
  | cons next rest ih =>
      rw [List.foldl_cons] at h
      rcases ih _ h with hnext | hrest
      · rcases hchoose selected next with hkept | htaken
        · exact Or.inl (hkept ▸ hnext)
        · rw [htaken, Option.some_inj] at hnext
          exact Or.inr (List.mem_cons.mpr (Or.inl hnext.symm))
      · exact Or.inr (List.mem_cons_of_mem _ hrest)

theorem least_mem {candidates : List CandidateEvaluation}
    (h : least candidates = some evaluation) : evaluation ∈ candidates := by
  rw [least] at h
  refine (foldl_select ?_ candidates none h).resolve_left (Option.some_ne_none _).symm
  intro selected next
  cases selected with
  | none => exact Or.inr rfl
  | some best =>
      dsimp only
      split
      · exact Or.inr rfl
      · exact Or.inl rfl

theorem pareto_subset {candidates : List CandidateEvaluation}
    (h : evaluation ∈ pareto candidates) : evaluation ∈ candidates := by
  rw [pareto, List.mem_filterMap] at h
  obtain ⟨⟨other, index⟩, hmem, h⟩ := h
  dsimp only at h
  split at h
  · cases h
  · injection h with h
    subst h
    exact List.fst_mem_of_mem_zipIdx hmem

/-- How an evaluation that was found came about. -/
inductive Built (shape : RangeShape) (caps : RangeCaps) (evaluation : CandidateEvaluation) : Prop
  | direct (candidate : RangeCandidate) (path : candidate.disposition = .direct)
      (built : buildDirect shape caps candidate = Except.ok evaluation)
  | sharedHalo (candidate : RangeCandidate) (path : candidate.disposition = .sharedHalo)
      (width : RangeCandidate.supportedWidth candidate.width = true)
      (built : buildSharedHalo shape caps candidate = Except.ok evaluation)
  | tiledDifference (candidate : RangeCandidate) (path : candidate.disposition = .tiledDifference)
      (width : RangeCandidate.supportedWidth candidate.width = true)
      (built : buildTiledDifference shape caps candidate = Except.ok evaluation)
  | prefixDifference (candidate : RangeCandidate)
      (path : candidate.disposition = .prefixDifference)
      (width : RangeCandidate.supportedWidth candidate.width = true)
      (built : buildPrefixDifference shape caps candidate = Except.ok evaluation)
  | blockPrefixSuffix (candidate : RangeCandidate)
      (path : candidate.disposition = .blockPrefixSuffix)
      (built : buildBlockPrefixSuffix shape caps candidate = Except.ok evaluation)

theorem make_eq {disposition : RangePath} {width : UInt32} {candidate : RangeCandidate}
    (h : candidate ∈ (RangeCandidate.make disposition width).toList) :
    candidate.disposition = disposition ∧
      RangeCandidate.supportedWidth candidate.width = true := by
  rw [Option.mem_toList, RangeCandidate.make] at h
  split_ifs at h with hwidth
  injection h with h
  subst h
  exact ⟨rfl, hwidth⟩

theorem sharedHalo_eq {width radius : UInt32} {candidate : RangeCandidate}
    (h : candidate ∈ (RangeCandidate.sharedHalo width radius).toList) :
    candidate.disposition = .sharedHalo ∧
      RangeCandidate.supportedWidth candidate.width = true := by
  rw [Option.mem_toList, RangeCandidate.sharedHalo] at h
  split_ifs at h with hguard
  injection h with h
  subst h
  rw [Bool.and_eq_true, Bool.and_eq_true] at hguard
  exact ⟨rfl, hguard.1.1⟩

/-- What is tried under a condition for the candidates of an option. -/
theorem mem_tried {condition : Bool} {candidate : Option RangeCandidate}
    {build : RangeCandidate → Evaluated CandidateEvaluation}
    (h : Except.ok evaluation ∈
      if condition then candidate.toList.map build else ([] : List (Evaluated CandidateEvaluation))) :
    ∃ made ∈ candidate.toList, build made = Except.ok evaluation := by
  cases condition with
  | false => cases h
  | true => exact List.mem_map.mp h

theorem built_of_found (h : evaluation ∈ found shape caps) : Built shape caps evaluation := by
  rw [found, List.mem_filterMap] at h
  obtain ⟨evaluated, hmem, hok⟩ := h
  have hevaluated : evaluated = Except.ok evaluation := by
    cases evaluated with
    | error overflow => cases hok
    | ok value =>
        injection hok with hok
        rw [hok]
  rw [hevaluated, evaluations] at hmem
  split at hmem
  · rw [List.mem_append, List.mem_append] at hmem
    rcases hmem with (hdirect | hsums) | hblock
    · split at hdirect
      · exact Built.direct .directCpu rfl (List.mem_singleton.mp hdirect).symm
      · cases hdirect
    · obtain ⟨candidate, hmade, hbuilt⟩ := mem_tried hsums
      exact Built.prefixDifference candidate (make_eq hmade).1 (make_eq hmade).2 hbuilt
    · obtain ⟨candidate, hmade, hbuilt⟩ := mem_tried hblock
      exact Built.blockPrefixSuffix candidate (make_eq hmade).1 hbuilt
  · obtain ⟨width, -, hmem⟩ := List.mem_flatMap.mp hmem
    rw [List.mem_append, List.mem_append, List.mem_append, List.mem_append] at hmem
    rcases hmem with (((hdirect | hhalo) | htiled) | hsums) | hblock
    · obtain ⟨candidate, hmade, hbuilt⟩ := mem_tried hdirect
      exact Built.direct candidate (make_eq hmade).1 hbuilt
    · obtain ⟨candidate, hmade, hbuilt⟩ := mem_tried hhalo
      exact Built.sharedHalo candidate (sharedHalo_eq hmade).1 (sharedHalo_eq hmade).2 hbuilt
    · obtain ⟨candidate, hmade, hbuilt⟩ := mem_tried htiled
      exact Built.tiledDifference candidate (make_eq hmade).1 (make_eq hmade).2 hbuilt
    · obtain ⟨candidate, hmade, hbuilt⟩ := mem_tried hsums
      exact Built.prefixDifference candidate (make_eq hmade).1 (make_eq hmade).2 hbuilt
    · obtain ⟨candidate, hmade, hbuilt⟩ := mem_tried hblock
      exact Built.blockPrefixSuffix candidate (make_eq hmade).1 hbuilt

/-- A valid capability is one of a processor exactly when its source is. -/
theorem cpuOnly_iff (hvalid : caps.valid = true) :
    caps.cpuOnly = true ↔ caps.sourceVariant = .cpu := by
  constructor
  · intro hcpu
    simp only [RangeCaps.cpuOnly, Bool.and_eq_true, beq_iff_eq] at hcpu
    exact hcpu.1.1.1.1.1.1.2
  · intro hsource
    rw [RangeCaps.valid, Bool.and_eq_true, Bool.or_eq_true] at hvalid
    rcases hvalid.2 with hcpu | hgpu
    · exact hcpu
    · simp only [Bool.and_eq_true, Bool.or_eq_true, beq_iff_eq] at hgpu
      rcases hgpu.1.1.1.1.1.1.1.1.1.2 with hmetal | hvulkan
      · rw [hsource] at hmetal
        cases hmetal
      · rw [hsource] at hvulkan
        cases hvulkan

end Found

/-! ### The plan and the evaluation -/

/-- A plan that keeps an evaluation, for a shape and a source. -/
structure Keeps (plan : RangePlan) (asked : RangeShape) (source : RangeSource)
    (evaluation : CandidateEvaluation) : Prop where
  shape : plan.shape = asked
  sourceVariant : plan.sourceVariant = source
  candidate : plan.candidate = evaluation.candidate
  stageCount : plan.stageCount = evaluation.stages.length
  temporaryCount : plan.temporaryCount = evaluation.temporaries.length

/-- A plan that derives the stages and temporaries of an evaluation, each temporary for at least
the stages that use it. -/
structure Reproduces (plan : RangePlan) (evaluation : CandidateEvaluation) : Prop where
  stage : ∀ index, index < plan.stageCount → plan.stage index = evaluation.stages[index]?
  temporary : ∀ index, index < plan.temporaryCount →
    plan.temporary index = evaluation.temporaries[index]?
  spans : ∀ (place index : Nat) (stage : RangeStagePlan) (temporary : RangeTempReq),
    evaluation.stages[place]? = some stage → evaluation.temporaries[index]? = some temporary →
      plan.Uses stage temporary →
        temporary.firstStage.toNat ≤ place ∧ place ≤ temporary.lastStage.toNat

theorem buildRangePlan_keeps {shape : RangeShape} {caps : RangeCaps} {plan : RangePlan}
    (h : buildRangePlan shape caps = Except.ok plan) :
    shape.valid = true ∧ caps.valid = true ∧ ∃ evaluation, choice shape caps = some evaluation ∧
      Keeps plan shape caps.sourceVariant evaluation := by
  rw [buildRangePlan] at h
  split_ifs at h with hshape hcaps
  cases hchoice : choice shape caps with
  | none =>
      rw [hchoice] at h
      cases h
  | some evaluation =>
      rw [hchoice] at h
      injection h with h
      subst h
      exact ⟨Bool.eq_true_of_not_eq_false hshape, Bool.eq_true_of_not_eq_false hcaps, evaluation,
        rfl, rfl, rfl, rfl, rfl, rfl⟩

section Paths

variable {plan : RangePlan} {shape : RangeShape} {caps : RangeCaps} {candidate : RangeCandidate}
  {evaluation : CandidateEvaluation}

/-- A candidate with a single stage, and no scratch, is reproduced with that stage. -/
theorem reproduces_single {stage : RangeStagePlan} {source : RangeSource}
    (hkeeps : Keeps plan shape source evaluation)
    (hschedule : Schedule caps candidate evaluation [stage] [])
    (hstage : 0 < plan.stageCount → plan.stage 0 = some stage) : Reproduces plan evaluation where
  stage index hindex := by
    have hcount := hkeeps.stageCount
    rw [hschedule.stages, List.length_singleton] at hcount
    have hzero : index = 0 := by omega
    rw [hzero, hschedule.stages]
    exact hstage (by omega)
  temporary index hindex := by
    rw [hkeeps.temporaryCount, hschedule.temporaries] at hindex
    exact absurd hindex (Nat.not_lt_zero index)
  spans place index stage temporary _ htemporary := by
    rw [hschedule.temporaries] at htemporary
    cases htemporary

/-- The scratch of a schedule with two stages spans both. -/
theorem spans_pair {first second : RangeStagePlan} {place : Nat} {stage : RangeStagePlan}
    (h : [first, second][place]? = some stage) : 0 ≤ place ∧ place ≤ 1 := by
  obtain ⟨hlt, -⟩ := List.getElem?_eq_some_iff.mp h
  exact ⟨Nat.zero_le place, Nat.lt_succ_iff.mp hlt⟩

theorem reproduces_direct {source : RangeSource} (hkeeps : Keeps plan shape source evaluation)
    (hpath : candidate.disposition = .direct)
    (hbuilt : buildDirect shape caps candidate = Except.ok evaluation) :
    Reproduces plan evaluation := by
  have hschedule := buildDirect_schedule hbuilt
  apply reproduces_single hkeeps hschedule
  intro hpos
  have hcandidate := hkeeps.candidate.trans hschedule.candidate
  rw [RangePlan.stage, if_neg (by omega), hcandidate, hpath, hkeeps.shape]

theorem reproduces_sharedHalo {source : RangeSource}
    (hkeeps : Keeps plan shape source evaluation) (hpath : candidate.disposition = .sharedHalo)
    (hbuilt : buildSharedHalo shape caps candidate = Except.ok evaluation) :
    Reproduces plan evaluation := by
  obtain ⟨hcentered, hschedule⟩ := buildSharedHalo_schedule hbuilt
  apply reproduces_single hkeeps hschedule
  intro hpos
  have hcandidate := hkeeps.candidate.trans hschedule.candidate
  -- the plan counts the elements that are read; a centered window writes as many
  have hcounts : shape.inputCount = shape.outputCount := by
    simp only [RangeShape.centeredClamp, Bool.and_eq_true, beq_iff_eq] at hcentered
    exact hcentered.1.1.2
  rw [RangePlan.stage, if_neg (by omega), hcandidate, hpath, hkeeps.shape]
  dsimp only
  rw [hcounts]

theorem reproduces_tiledDifference {source : RangeSource}
    (hkeeps : Keeps plan shape source evaluation)
    (hpath : candidate.disposition = .tiledDifference)
    (hbuilt : buildTiledDifference shape caps candidate = Except.ok evaluation) :
    Reproduces plan evaluation := by
  have hschedule := buildTiledDifference_schedule hbuilt
  apply reproduces_single hkeeps hschedule
  intro hpos
  have hcandidate := hkeeps.candidate.trans hschedule.candidate
  rw [RangePlan.stage, if_neg (by omega), hcandidate, hpath, hkeeps.shape]

theorem reproduces_prefixCpu (hkeeps : Keeps plan shape .cpu evaluation)
    (hpath : candidate.disposition = .prefixDifference)
    (hbuilt : buildPrefixCpu shape caps candidate = Except.ok evaluation) :
    Reproduces plan evaluation := by
  have hschedule := buildPrefixCpu_schedule hbuilt
  have hcandidate := hkeeps.candidate.trans hschedule.candidate
  have hstages := hkeeps.stageCount
  have htemporaries := hkeeps.temporaryCount
  rw [hschedule.stages] at hstages
  rw [hschedule.temporaries] at htemporaries
  change plan.stageCount = 2 at hstages
  change plan.temporaryCount = 1 at htemporaries
  refine ⟨?_, ?_, ?_⟩
  · intro index hindex
    rw [RangePlan.stage, if_neg (by omega), hcandidate, hpath, hkeeps.shape, hschedule.stages]
    dsimp only
    rw [if_pos hkeeps.sourceVariant]
    rcases (by omega : index = 0 ∨ index = 1) with rfl | rfl
    · rfl
    · rfl
  · intro index hindex
    have hzero : index = 0 := by omega
    rw [RangePlan.temporary, if_neg (by omega), hcandidate, if_pos hpath, if_pos hzero, hzero,
      hkeeps.shape, hstages, hschedule.temporaries]
    rfl
  · intro place index stage temporary hstage htemporary _
    rw [hschedule.stages] at hstage
    rw [hschedule.temporaries] at htemporary
    obtain ⟨hlt, -⟩ := List.getElem?_eq_some_iff.mp htemporary
    have hzero : index = 0 := Nat.lt_one_iff.mp hlt
    rw [hzero] at htemporary
    injection htemporary with htemporary
    subst htemporary
    exact spans_pair hstage

theorem reproduces_blockPrefixSuffix {source : RangeSource}
    (hcpu : caps.cpuOnly = true ↔ source = .cpu) (hsource : caps.sourceVariant = source)
    (hkeeps : Keeps plan shape source evaluation)
    (hpath : candidate.disposition = .blockPrefixSuffix)
    (hbuilt : buildBlockPrefixSuffix shape caps candidate = Except.ok evaluation) :
    Reproduces plan evaluation := by
  obtain ⟨padded, hspan, hschedule⟩ := buildBlockPrefixSuffix_schedule hbuilt
  have hcandidate := hkeeps.candidate.trans hschedule.candidate
  have hstages := hkeeps.stageCount
  have htemporaries := hkeeps.temporaryCount
  rw [hschedule.stages] at hstages
  rw [hschedule.temporaries] at htemporaries
  change plan.stageCount = 2 at hstages
  have hscratch : ∀ index temporary, evaluation.temporaries[index]? = some temporary →
      temporary = blockValues (if index = 0 then .forwardValues else .backwardValues) shape
        padded := by
    intro index temporary htemporary
    rw [hschedule.temporaries] at htemporary
    cases index with
    | zero =>
        injection htemporary with htemporary
        exact htemporary.symm
    | succ index =>
        rw [List.getElem?_cons_succ] at htemporary
        split at htemporary
        · cases htemporary
        · obtain ⟨hlt, -⟩ := List.getElem?_eq_some_iff.mp htemporary
          have hzero : index = 0 := Nat.lt_one_iff.mp hlt
          rw [hzero] at htemporary
          injection htemporary with htemporary
          exact htemporary.symm
  refine ⟨?_, ?_, ?_⟩
  · intro index hindex
    rw [RangePlan.stage, if_neg (by omega), hcandidate, hpath, hkeeps.shape, hschedule.stages,
      hkeeps.sourceVariant, hsource]
    dsimp only
    rw [hspan]
    by_cases hprocessor : source = .cpu
    · rw [if_pos hprocessor, hprocessor]
      rcases (by omega : index = 0 ∨ index = 1) with rfl | rfl
      · rfl
      · rfl
    · have hdevice : ¬ (source == .cpu) = true := fun hbeq => hprocessor (beq_iff_eq.mp hbeq)
      have hnot : ¬ caps.cpuOnly = true := fun honly => hprocessor (hcpu.mp honly)
      rw [if_neg hprocessor, if_neg hdevice, if_neg hdevice, if_neg hdevice, prepareGroups,
        if_neg hnot, queryGroups, hsource]
      rcases (by omega : index = 0 ∨ index = 1) with rfl | rfl
      · rfl
      · rfl
  · intro index hindex
    have hlt : index < evaluation.temporaries.length := by
      rw [← hkeeps.temporaryCount]
      exact hindex
    have hvalue := hscratch index _ (List.getElem?_eq_getElem hlt)
    rw [List.getElem?_eq_getElem hlt, hvalue, RangePlan.temporary, if_neg (by omega), hcandidate,
      hpath, if_neg (by decide), hkeeps.shape, hspan]
    rfl
  · intro place index stage temporary hstage htemporary _
    rw [hschedule.stages] at hstage
    rw [hscratch index temporary htemporary]
    exact spans_pair hstage

end Paths

/-! ### Prefix sums on a device -/

section Hierarchy

variable {plan : RangePlan} {width elementBytes : UInt32}
  {elementCount : UInt64} {levels : Nat}

theorem ofNat_sub_one {level : Nat} (hpos : 0 < level) (hsmall : level < 256) :
    UInt8.ofNat level - 1 = UInt8.ofNat (level - 1) := by
  rw [← UInt8.toNat_inj, UInt8.toNat_sub_of_le]
  · rw [UInt8.toNat_ofNat_of_lt' hsmall, UInt8.toNat_ofNat_of_lt' (by show _ < 256; omega)]
    rfl
  · rw [UInt8.le_iff_toNat_le, UInt8.toNat_ofNat_of_lt' hsmall]
    exact hpos

theorem ofNat_inj {left right : Nat} (hleft : left < 256) (hright : right < 256)
    (h : UInt8.ofNat left = UInt8.ofNat right) : left = right := by
  have hnat := congrArg UInt8.toNat h
  rw [UInt8.toNat_ofNat_of_lt' hleft, UInt8.toNat_ofNat_of_lt' hright] at hnat
  exact hnat

/-- The totals that a stage of a hierarchy binds are around its own level. -/
theorem up_uses {level : Nat} (hsmall : level < 256) {ordinal : UInt8}
    (hmem : (RangeTempRole.blockSummaries, ordinal) ∈
      plan.stageScratch (upStage width elementCount level)) :
    ∃ total, ordinal = UInt8.ofNat total ∧ total ≤ level ∧ level ≤ total + 1 := by
  rw [RangePlan.stageScratch, upStage] at hmem
  by_cases hzero : level = 0
  · rw [if_pos hzero] at hmem
    dsimp only at hmem
    rcases List.mem_cons.mp hmem with hvalues | hmem
    · cases hvalues
    · rw [List.mem_singleton] at hmem
      split at hmem
      · cases hmem
      · injection hmem with _ hmem
        exact ⟨level, hmem, Nat.le_refl level, Nat.le_succ level⟩
  · rw [if_neg hzero] at hmem
    dsimp only at hmem
    rw [if_neg (ofNat_ne_zero (Nat.pos_of_ne_zero hzero) hsmall),
      ofNat_sub_one (Nat.pos_of_ne_zero hzero) hsmall] at hmem
    rcases List.mem_cons.mp hmem with hbelow | hmem
    · injection hbelow with _ hbelow
      exact ⟨level - 1, hbelow, by omega, by omega⟩
    · rw [List.mem_singleton] at hmem
      split at hmem
      · injection hmem with _ hmem
        exact ⟨level - 1, hmem, by omega, by omega⟩
      · injection hmem with _ hmem
        exact ⟨level, hmem, Nat.le_refl level, Nat.le_succ level⟩

theorem fixup_uses {level : Nat} (hpos : 0 < level) (hsmall : level < 256) {ordinal : UInt8}
    (hmem : (RangeTempRole.blockSummaries, ordinal) ∈
      plan.stageScratch (fixupStage width elementCount level)) :
    ∃ total, ordinal = UInt8.ofNat total ∧ total ≤ level ∧ level ≤ total + 1 := by
  rw [RangePlan.stageScratch, fixupStage] at hmem
  dsimp only at hmem
  rw [if_neg (ofNat_ne_zero hpos hsmall), ofNat_sub_one hpos hsmall] at hmem
  rcases List.mem_cons.mp hmem with hbelow | hmem
  · injection hbelow with _ hbelow
    exact ⟨level - 1, hbelow, by omega, by omega⟩
  · rw [List.mem_singleton] at hmem
    injection hmem with _ hmem
    exact ⟨level, hmem, Nat.le_refl level, Nat.le_succ level⟩

/-- **The totals of a level are kept from their stage up until their stage down is over.** -/
theorem kept_uses (hbound : levels ≤ kRangeTempCap) {place : Nat} {stage : RangeStagePlan}
    (hstage : (keptStages width elementCount levels)[place]? = some stage) {level : Nat}
    (hlevel : level < levels - 1)
    (hmem : (RangeTempRole.blockSummaries, UInt8.ofNat level) ∈ plan.stageScratch stage) :
    level ≤ place ∧ place ≤ 2 * levels - 2 - level := by
  have hcap : kRangeTempCap = 12 := rfl
  rw [keptStages] at hstage
  by_cases hup : place < levels
  · rw [List.getElem?_append_left (by rw [List.length_map, List.length_range]; exact hup),
      List.getElem?_map, List.getElem?_range hup] at hstage
    injection hstage with hstage
    subst hstage
    obtain ⟨total, hordinal, hle, hge⟩ := up_uses (by omega) hmem
    have hsame := ofNat_inj (by omega) (by omega) hordinal
    omega
  · rw [List.getElem?_append_right (by rw [List.length_map, List.length_range]; omega),
      List.length_map, List.length_range, List.getElem?_map] at hstage
    by_cases hdown : place - levels < levels - 2
    · rw [List.getElem?_range hdown] at hstage
      injection hstage with hstage
      subst hstage
      obtain ⟨total, hordinal, hle, hge⟩ := fixup_uses (by omega) (by omega) hmem
      have hsame := ofNat_inj (by omega) (by omega) hordinal
      omega
    · rw [List.getElem?_eq_none (by rw [List.length_range]; omega)] at hstage
      cases hstage

theorem keptStages_count :
    (keptStages width elementCount levels).length = levels + (levels - 2) := by
  rw [keptStages, List.length_append, List.length_map, List.length_range, List.length_map,
    List.length_range]

theorem treeTemporaries_length :
    (treeTemporaries width elementBytes elementCount levels).length = levels - 1 := by
  rw [treeTemporaries, List.length_map, List.length_range]

end Hierarchy

section Device

variable {plan : RangePlan} {shape : RangeShape} {caps : RangeCaps} {candidate : RangeCandidate}
  {evaluation : CandidateEvaluation}

theorem supportedWidth_ne_zero {width : UInt32}
    (hwidth : RangeCandidate.supportedWidth width = true) : width.toUInt64 ≠ 0 := by
  simp only [RangeCandidate.supportedWidth, Bool.or_eq_true, beq_iff_eq] at hwidth
  rcases hwidth with (hwidth | hwidth) | hwidth
  · rw [hwidth]
    decide
  · rw [hwidth]
    decide
  · rw [hwidth]
    decide

/-- The number of stages that a plan has over a hierarchy. -/
theorem keptStages_succ {width : UInt32} {elementCount maximumGroupCount : UInt64} {levels : Nat}
    (hlevels : Levels width elementCount maximumGroupCount levels) (hwidth : width.toUInt64 ≠ 0) :
    (keptStages width elementCount levels).length + 1 =
      (treeStages width elementCount levels).length + 1 -
        (if elementCount > width.toUInt64 then 1 else 0) := by
  have htwo := hlevels.two_le_iff hwidth
  rw [treeStages_eq, List.length_append]
  by_cases hlarge : 2 ≤ levels
  · rw [if_pos hlarge, if_pos (htwo.mp hlarge), List.length_singleton]
    rfl
  · rw [if_neg hlarge, if_neg (fun hgt => hlarge (htwo.mpr hgt))]
    rfl

/-- **The stages that a plan derives for prefix sums on a device.** -/
theorem stage_prefixGpu {maximumGroupCount : UInt64} {tree : PrefixBuilder} {levels : Nat}
    (hpath : plan.candidate.disposition = .prefixDifference) (hdevice : plan.sourceVariant ≠ .cpu)
    (htree : planRangePrefixTree plan.shape.inputCount plan.candidate.width
      plan.shape.elementBytes kWordMax = some tree)
    (hlevels : Levels plan.candidate.width plan.shape.inputCount maximumGroupCount levels)
    (hwidth : plan.candidate.width.toUInt64 ≠ 0)
    (hstages : tree.stages = treeStages plan.candidate.width plan.shape.inputCount levels)
    (hcount : plan.stageCount = tree.stages.length + 1 -
      (if plan.shape.inputCount > plan.candidate.width.toUInt64 then 1 else 0))
    {index : Nat} (hindex : index < plan.stageCount) :
    plan.stage index = (keptStages plan.candidate.width plan.shape.inputCount levels ++
      [windowStage plan.shape (groupsFor plan.shape.outputCount plan.candidate.width.toUInt64)
        plan.candidate.width])[index]? := by
  have hkept := keptStages_succ hlevels hwidth
  rw [hstages, ← hkept] at hcount
  rw [RangePlan.stage, if_neg (by omega), hpath]
  dsimp only
  rw [if_neg hdevice, htree]
  show (if _ then _ else if _ then _ else _) = _
  rw [if_neg (not_not_intro (by rw [hstages, ← hkept]; exact hcount))]
  by_cases hinner : index + 1 < plan.stageCount
  · rw [if_pos hinner, hstages, treeStages_eq, List.getElem?_append_left (by omega),
      List.getElem?_append_left (by omega)]
  · have hlast : index =
        (keptStages plan.candidate.width plan.shape.inputCount levels).length := by
      omega
    rw [if_neg hinner, hlast, List.getElem?_append_right (Nat.le_refl _), Nat.sub_self]
    rfl

theorem reproduces_prefixGpu {source : RangeSource} (hsource : source ≠ .cpu)
    (hkeeps : Keeps plan shape source evaluation)
    (hpath : candidate.disposition = .prefixDifference)
    (hwidth : RangeCandidate.supportedWidth candidate.width = true)
    (hbuilt : buildPrefixGpu shape caps candidate = Except.ok evaluation) :
    Reproduces plan evaluation := by
  obtain ⟨levels, tree, hlevels, htree, hstages, htemporaries, hschedule⟩ :=
    buildPrefixGpu_schedule hbuilt
  have hcandidate := hkeeps.candidate.trans hschedule.candidate
  have hdevice : plan.sourceVariant ≠ .cpu := hkeeps.sourceVariant ▸ hsource
  have hwide := supportedWidth_ne_zero hwidth
  have htwo := hlevels.two_le_iff hwide
  have hpos := hlevels.pos
  have hcap : kRangeTempCap = 12 := rfl
  have hbound := hlevels.bound
  have hkeptCount := @keptStages_count candidate.width shape.inputCount levels
  have hkept := keptStages_succ hlevels hwide
  rw [← hstages] at hkept
  have hstageCount := hkeeps.stageCount
  rw [hschedule.stages, List.length_append, List.length_singleton] at hstageCount
  have htemporaryCount := hkeeps.temporaryCount
  rw [hschedule.temporaries, List.length_cons, treeTemporaries_length] at htemporaryCount
  have hcounts := hstageCount.trans hkept
  refine ⟨?_, ?_, ?_⟩
  · intro index hindex
    obtain rfl : plan.candidate = candidate := hcandidate
    obtain rfl : plan.shape = shape := hkeeps.shape
    rw [hschedule.stages]
    exact stage_prefixGpu hpath hdevice htree hlevels hwide hstages hcounts hindex
  · intro index hindex
    rw [RangePlan.temporary, if_neg (by omega), hcandidate, if_pos hpath, hkeeps.shape,
      hschedule.temporaries]
    cases index with
    | zero =>
        rw [if_pos rfl, hcounts]
        have hlength : tree.stages.length + 1 -
            (if shape.inputCount > candidate.width.toUInt64 then 1 else 0) - 1 =
            tree.stages.length -
              (if shape.inputCount > candidate.width.toUInt64 then 1 else 0) := by
          omega
        rw [hlength]
        rfl
    | succ index =>
        rw [if_neg (Nat.succ_ne_zero index), if_neg hdevice, htree, Nat.add_sub_cancel,
          List.getElem?_cons_succ]
        show (if _ then _ else _) = _
        rw [htemporaries, treeTemporaries_length, if_pos (by omega)]
  · intro place index stage temporary hstage htemporary huses
    have huse := huses.resolve_left hdevice
    rw [hschedule.stages] at hstage
    rw [hschedule.temporaries] at htemporary
    obtain ⟨hplace, -⟩ := List.getElem?_eq_some_iff.mp hstage
    rw [List.length_append, List.length_singleton] at hplace
    cases index with
    | zero =>
        injection htemporary with htemporary
        subst htemporary
        refine ⟨Nat.zero_le place, ?_⟩
        show place ≤ (UInt8.ofNat _).toNat
        rw [UInt8.toNat_ofNat_of_lt' (by show _ < 256; omega)]
        omega
    | succ level =>
        rw [List.getElem?_cons_succ] at htemporary
        obtain ⟨hlevel, -⟩ := List.getElem?_eq_some_iff.mp htemporary
        rw [treeTemporaries_length] at hlevel
        rw [treeTemporaries, List.getElem?_map, List.getElem?_range hlevel] at htemporary
        injection htemporary with htemporary
        subst htemporary
        show (UInt8.ofNat level).toNat ≤ place ∧ place ≤ (UInt8.ofNat _).toNat
        rw [UInt8.toNat_ofNat_of_lt' (by show _ < 256; omega),
          UInt8.toNat_ofNat_of_lt' (by show _ < 256; omega)]
        by_cases hinner : place < (keptStages candidate.width shape.inputCount levels).length
        · rw [List.getElem?_append_left hinner] at hstage
          exact kept_uses hbound hstage hlevel huse
        · have hlast : place = (keptStages candidate.width shape.inputCount levels).length := by
            omega
          rw [hlast, List.getElem?_append_right (Nat.le_refl _), Nat.sub_self] at hstage
          injection hstage with hstage
          subst hstage
          -- the stage that queries binds the totals of level zero only
          have hzero : level = 0 := by
            change (RangeTempRole.blockSummaries, UInt8.ofNat level) ∈ [_, _] at huse
            rcases List.mem_cons.mp huse with hvalues | huse
            · cases hvalues
            · rw [List.mem_singleton] at huse
              split at huse
              · cases huse
              · injection huse with _ hordinal
                exact ofNat_inj (by omega) (by omega) hordinal
          omega

end Device

/-! ### Selected plans -/

/-- **A selected plan derives the stages and the temporaries of the candidate that was chosen:
no assertion fails on the way, each temporary is kept for every stage that uses it, and each stage
has groups, within the limit of the capability.** -/
theorem rangePlan_reproduces (shape : RangeShape) (caps : RangeCaps) (plan : RangePlan)
    (h : buildRangePlan shape caps = Except.ok plan) :
    ∃ evaluation, choice shape caps = some evaluation ∧
      plan.candidate = evaluation.candidate ∧
      plan.stageCount = evaluation.stages.length ∧
      plan.temporaryCount = evaluation.temporaries.length ∧
      (∀ index (hindex : index < evaluation.stages.length),
        plan.stage index = some evaluation.stages[index]) ∧
      (∀ index (hindex : index < evaluation.temporaries.length),
        plan.temporary index = some evaluation.temporaries[index]) ∧
      (∀ place index stage temporary, plan.stage place = some stage →
        plan.temporary index = some temporary → plan.Uses stage temporary →
          temporary.firstStage.toNat ≤ place ∧ place ≤ temporary.lastStage.toNat) ∧
      ∀ index stage, plan.stage index = some stage →
        stage.groups ≠ 0 ∧ (caps.cpuOnly = true ∨ stage.groups ≤ caps.maximumGroupCount) := by
  obtain ⟨-, hcaps, evaluation, hchoice, hkeeps⟩ := buildRangePlan_keeps h
  have hcpu := cpuOnly_iff hcaps
  have hbuilt := built_of_found (pareto_subset (least_mem hchoice))
  have hfits : ∀ stage ∈ evaluation.stages, fitsGroups caps stage.groups = true := by
    cases hbuilt with
    | direct candidate path built => exact (buildDirect_schedule built).fits
    | sharedHalo candidate path width built => exact (buildSharedHalo_schedule built).2.fits
    | tiledDifference candidate path width built => exact (buildTiledDifference_schedule built).fits
    | prefixDifference candidate path width built =>
        obtain ⟨_, -, built⟩ := evaluated_bind.mp built
        by_cases honly : caps.cpuOnly = true
        · rw [if_pos honly] at built
          exact (buildPrefixCpu_schedule built).fits
        · rw [if_neg honly] at built
          obtain ⟨_, _, -, -, -, -, hschedule⟩ := buildPrefixGpu_schedule built
          exact hschedule.fits
    | blockPrefixSuffix candidate path built =>
        obtain ⟨_, -, hschedule⟩ := buildBlockPrefixSuffix_schedule built
        exact hschedule.fits
  have hreproduces : Reproduces plan evaluation := by
    cases hbuilt with
    | direct candidate path built => exact reproduces_direct hkeeps path built
    | sharedHalo candidate path width built => exact reproduces_sharedHalo hkeeps path built
    | tiledDifference candidate path width built => exact reproduces_tiledDifference hkeeps path built
    | prefixDifference candidate path width built =>
        obtain ⟨_, -, built⟩ := evaluated_bind.mp built
        by_cases honly : caps.cpuOnly = true
        · rw [if_pos honly] at built
          rw [hcpu.mp honly] at hkeeps
          exact reproduces_prefixCpu hkeeps path built
        · rw [if_neg honly] at built
          exact reproduces_prefixGpu (fun hsource => honly (hcpu.mpr hsource)) hkeeps path width
            built
    | blockPrefixSuffix candidate path built =>
        exact reproduces_blockPrefixSuffix hcpu rfl hkeeps path built
  have hstage : ∀ index stage, plan.stage index = some stage →
      evaluation.stages[index]? = some stage := by
    intro index stage hstage
    by_cases hindex : index < plan.stageCount
    · rw [← hreproduces.stage index hindex]
      exact hstage
    · rw [RangePlan.stage, if_pos (by omega)] at hstage
      cases hstage
  have htemporary : ∀ index temporary, plan.temporary index = some temporary →
      evaluation.temporaries[index]? = some temporary := by
    intro index temporary htemporary
    by_cases hindex : index < plan.temporaryCount
    · rw [← hreproduces.temporary index hindex]
      exact htemporary
    · rw [RangePlan.temporary, if_pos (by omega)] at htemporary
      cases htemporary
  refine ⟨evaluation, hchoice, hkeeps.candidate, hkeeps.stageCount, hkeeps.temporaryCount,
    ?_, ?_, ?_, ?_⟩
  · intro index hindex
    rw [hreproduces.stage index (by rw [hkeeps.stageCount]; exact hindex),
      List.getElem?_eq_getElem hindex]
  · intro index hindex
    rw [hreproduces.temporary index (by rw [hkeeps.temporaryCount]; exact hindex),
      List.getElem?_eq_getElem hindex]
  · intro place index stage temporary hplace hindex huses
    exact hreproduces.spans place index stage temporary (hstage place stage hplace)
      (htemporary index temporary hindex) huses
  · intro index stage hplace
    have hfit := hfits stage (List.mem_of_getElem? (hstage index stage hplace))
    rw [fitsGroups, Bool.and_eq_true, Bool.or_eq_true, bne_iff_ne, decide_eq_true_iff] at hfit
    exact hfit

/-- Sums over windows of 2001 of 5000 elements. -/
def wideSums : RangeShape :=
  { traits := { operation := .sum, domain := .u32, arithmeticLaw := .moduloWidth }
    boundary := .clip
    inputCount := 5000
    outputCount := 5000
    windowSize := 2001
    stride := 1
    padding := 1000
    elementBytes := 4
    count := .u32 }

/-- A device with groups of 64. -/
def narrowDevice : RangeCaps :=
  { disposition := .gpu
    sourceVariant := .metal
    legalWidthMask := 1
    maximumThreadsPerWorkgroup := 64
    sharedMemoryOccupancyBudget := 1
    sharedMemoryLimit := 32768
    maximumGroupCount := 100000
    maximumStorageElementCount := 100000
    maximumStorageBindingBytes := 1000000
    supportedCandidates := 31 }

/-- The plan of these sums on that device: a hierarchy of three levels, and the window. -/
def wideSumsPlan : RangePlan :=
  { shape := wideSums
    candidate := { disposition := .prefixDifference, width := 64, radiusCapacity := 0 }
    sourceVariant := .metal
    cost :=
      { globalReadBytes := 92180
        globalWriteBytes := 40708
        combineOps := 15347
        inverseOps := 7934
        sharedBytes := 256
        scratchBytes := 20324
        dispatchCount := 5
        workgroupCount := 163
        launchedLanes := 10432 }
    stageCount := 5
    temporaryCount := 3
    legalCandidateCount := 2
    paretoCandidateCount := 2 }

theorem rangePlan_reproduces_wideSums :
    buildRangePlan wideSums narrowDevice = Except.ok wideSumsPlan ∧
      ∃ evaluation, choice wideSums narrowDevice = some evaluation ∧
        evaluation.stages.length = 5 ∧
        ∀ index (hindex : index < evaluation.stages.length),
          wideSumsPlan.stage index = some evaluation.stages[index] := by
  have hplan : buildRangePlan wideSums narrowDevice = Except.ok wideSumsPlan := by
    decide
  obtain ⟨evaluation, hchoice, -, hcount, -, hstages, -⟩ :=
    rangePlan_reproduces wideSums narrowDevice wideSumsPlan hplan
  exact ⟨hplan, evaluation, hchoice, hcount.symm, hstages⟩

end RunD.Range
