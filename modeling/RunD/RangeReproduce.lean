/-
A plan derives the schedule that was evaluated.

The candidates with scratch follow here: prefix sums, over a hierarchy on a
device, and blocks with the values before and after each position.  A
hierarchy is walked once by its evaluation, which leaves the stage that goes
down to level zero out; the plan counts its stages to leave out the same one.
-/
import RunD.RangePlan

namespace RunD.Range

/-! ### The walk over a hierarchy -/

section Walk

variable {shape : RangeShape} {caps : RangeCaps} {candidate : RangeCandidate}
  {hierarchy : PrefixBuilder} {before after : CandidateEvaluation}

/-- The stage that an evaluation takes over from a hierarchy. -/
def turnStages (stage : RangeStagePlan) : List RangeStagePlan :=
  if stage.disposition = .prefixFixup ∧ stage.level = 0 then [] else [stage]

/-- The totals that an evaluation takes over with a stage. -/
def turnTemporaries (hierarchy : PrefixBuilder) (stage : RangeStagePlan) : List RangeTempReq :=
  if (stage.disposition = .prefixBlock ∨ stage.disposition = .prefixSummary) ∧
      stage.groups > 1 then
    (hierarchy.temporaries.find? fun temporary =>
      temporary.role == .blockSummaries && temporary.ordinal == stage.level).toList
  else []

theorem prefixTurn_extends {stage : RangeStagePlan}
    (h : prefixTurn shape caps candidate hierarchy before stage = Except.ok after) :
    Extends caps before after (turnStages stage) (turnTemporaries hierarchy stage) := by
  rw [prefixTurn] at h
  by_cases hskip : stage.disposition = .prefixFixup ∧ stage.level = 0
  · rw [if_pos hskip] at h
    rw [turnStages, if_pos hskip, turnTemporaries, hskip.1, if_neg (fun hup => nomatch hup.1)]
    injection h with h
    subst h
    exact ⟨rfl, (List.append_nil _).symm, (List.append_nil _).symm, nofun⟩
  rw [if_neg hskip] at h
  rw [turnStages, if_neg hskip]
  obtain ⟨staged, hstaged, h⟩ := evaluated_bind.mp h
  have hfirst := Extends.stage hstaged
  by_cases hup : stage.disposition = .prefixBlock ∨ stage.disposition = .prefixSummary
  · rw [if_pos hup] at h
    obtain ⟨read, hread, h⟩ := evaluated_bind.mp h
    obtain ⟨written, hwritten, h⟩ := evaluated_bind.mp h
    obtain ⟨combined, hcombined, h⟩ := evaluated_bind.mp h
    have hcosts : Extends caps staged combined [] [] :=
      Extends.after_charge hread (Extends.after_charge hwritten (Extends.charge hcombined))
    by_cases hgroups : stage.groups > 1
    · rw [if_pos hgroups] at h
      rw [turnTemporaries, if_pos ⟨hup, hgroups⟩]
      cases hfind : hierarchy.temporaries.find? fun temporary =>
          temporary.role == .blockSummaries && temporary.ordinal == stage.level with
      | none =>
          rw [hfind] at h
          cases h
      | some temporary =>
          rw [hfind] at h
          dsimp only at h
          rw [overflowing_eq_ok] at h
          obtain ⟨kept, hkept, hlast⟩ := evaluated_bind.mp h
          exact hfirst.trans (hcosts.trans ((Extends.temporary hkept).trans (Extends.charge hlast)))
    · rw [if_neg hgroups] at h
      rw [turnTemporaries, if_neg (fun hboth => hgroups hboth.2)]
      injection h with h
      subst h
      exact hfirst.trans hcosts
  · rw [if_neg hup] at h
    rw [turnTemporaries, if_neg (fun hboth => hup hboth.1)]
    by_cases hfixup : stage.disposition ≠ .prefixFixup
    · rw [if_pos hfixup] at h
      cases h
    rw [if_neg hfixup] at h
    obtain ⟨read, hread, h⟩ := evaluated_bind.mp h
    obtain ⟨written, hwritten, hlast⟩ := evaluated_bind.mp h
    exact hfirst.trans
      (Extends.after_charge hread (Extends.after_charge hwritten (Extends.charge hlast)))

/-- The walk takes over what each of its turns does. -/
theorem prefixTurns_extends {stages : List RangeStagePlan}
    (h : stages.foldlM (prefixTurn shape caps candidate hierarchy) before = Except.ok after) :
    Extends caps before after (stages.flatMap turnStages)
      (stages.flatMap (turnTemporaries hierarchy)) := by
  induction stages generalizing before with
  | nil =>
      injection h with h
      subst h
      exact ⟨rfl, (List.append_nil _).symm, (List.append_nil _).symm, nofun⟩
  | cons stage stages ih =>
      rw [List.foldlM_cons] at h
      obtain ⟨turned, hturned, hrest⟩ := evaluated_bind.mp h
      rw [List.flatMap_cons, List.flatMap_cons]
      exact (prefixTurn_extends hturned).trans (ih hrest)

end Walk

/-! ### The stages of a hierarchy that are kept -/

section Kept

variable {width elementBytes : UInt32} {elementCount maximumGroupCount : UInt64} {levels : Nat}

/-- The stages of a hierarchy without the one that goes down to level zero. -/
def keptStages (width : UInt32) (elementCount : UInt64) (levels : Nat) : List RangeStagePlan :=
  (List.range levels).map (upStage width elementCount) ++
    (List.range (levels - 2)).map fun turn => fixupStage width elementCount (levels - 2 - turn)

/-- A hierarchy has a second level when the elements do not fit one group. -/
theorem Levels.two_le_iff (hlevels : Levels width elementCount maximumGroupCount levels)
    (hwidth : width.toUInt64 ≠ 0) : 2 ≤ levels ↔ elementCount > width.toUInt64 := by
  rw [gt_iff_lt, ← groupsFor_gt_one hwidth]
  show _ ↔ 1 < levelCount width elementCount 1
  have hpos := hlevels.pos
  constructor
  · intro htwo
    have hone := (hlevels.below 1 (by omega)).resolve_right Nat.one_ne_zero
    have hzero := (hlevels.fits 0 hpos).1
    rw [UInt64.lt_iff_toNat_lt]
    rw [Ne, ← UInt64.toNat_inj] at hone hzero
    have hzero' : (levelCount width elementCount 1).toNat ≠ 0 := hzero
    have hone' : (levelCount width elementCount 1).toNat ≠ 1 := hone
    show 1 < _
    omega
  · intro hlt
    by_contra hsmall
    have hsingle : levels = 1 := by omega
    have htop := hlevels.top
    rw [hsingle] at htop
    rw [htop] at hlt
    exact absurd hlt (by decide)

/-- Only the last level has a single group. -/
theorem Levels.groups_gt_one (hlevels : Levels width elementCount maximumGroupCount levels)
    {level : Nat} (hlevel : level < levels) :
    1 < levelCount width elementCount (level + 1) ↔ level + 1 < levels := by
  constructor
  · intro hlt
    by_contra hlast
    have hsame : level + 1 = levels := by omega
    rw [hsame, hlevels.top] at hlt
    exact absurd hlt (by decide)
  · intro hnext
    have hone := (hlevels.below (level + 1) hnext).resolve_right (Nat.succ_ne_zero level)
    have hzero := (hlevels.fits level hlevel).1
    rw [UInt64.lt_iff_toNat_lt]
    rw [Ne, ← UInt64.toNat_inj] at hone hzero
    have hzero' : (levelCount width elementCount (level + 1)).toNat ≠ 0 := hzero
    have hone' : (levelCount width elementCount (level + 1)).toNat ≠ 1 := hone
    show 1 < _
    omega

theorem treeStages_eq :
    treeStages width elementCount levels = keptStages width elementCount levels ++
      if 2 ≤ levels then [fixupStage width elementCount 0] else [] := by
  rw [treeStages, keptStages]
  by_cases htwo : 2 ≤ levels
  · rw [if_pos htwo, show levels - 1 = levels - 2 + 1 by omega, List.range_succ, List.map_append,
      List.append_assoc, List.map_singleton, Nat.sub_self]
  · rw [if_neg htwo, show levels - 1 = 0 by omega, show levels - 2 = 0 by omega, List.append_nil]

theorem ofNat_ne_zero {level : Nat} (hpos : 0 < level) (hsmall : level < 256) :
    UInt8.ofNat level ≠ 0 := by
  intro hzero
  have hnat := congrArg UInt8.toNat hzero
  rw [UInt8.toNat_ofNat_of_lt' hsmall] at hnat
  change level = 0 at hnat
  omega

theorem flatMap_turnStages (hbound : levels ≤ kRangeTempCap) :
    (treeStages width elementCount levels).flatMap turnStages =
      keptStages width elementCount levels := by
  have hups : ((List.range levels).map (upStage width elementCount)).flatMap turnStages =
      (List.range levels).map (upStage width elementCount) := by
    rw [List.flatMap_map, List.map_eq_flatMap]
    apply List.flatMap_congr
    intro level _
    show (if _ then _ else _) = _
    rw [if_neg]
    rintro ⟨hfixup, -⟩
    by_cases hzero : level = 0
    · rw [upStage, if_pos hzero] at hfixup
      cases hfixup
    · rw [upStage, if_neg hzero] at hfixup
      cases hfixup
  have hdowns : ((List.range (levels - 2)).map
      fun turn => fixupStage width elementCount (levels - 2 - turn)).flatMap turnStages =
      (List.range (levels - 2)).map
        fun turn => fixupStage width elementCount (levels - 2 - turn) := by
    rw [List.flatMap_map, List.map_eq_flatMap]
    apply List.flatMap_congr
    intro turn hturn
    rw [List.mem_range] at hturn
    show (if _ then _ else _) = _
    rw [if_neg]
    rintro ⟨-, hlevel⟩
    have hcap : kRangeTempCap = 12 := rfl
    exact ofNat_ne_zero (by omega) (by omega) hlevel
  rw [treeStages_eq, List.flatMap_append, keptStages, List.flatMap_append, hups, hdowns]
  by_cases htwo : 2 ≤ levels
  · rw [if_pos htwo]
    exact List.append_nil _
  · rw [if_neg htwo]
    exact List.append_nil _

theorem find_summary {hierarchy : PrefixBuilder} (hbound : levels ≤ kRangeTempCap)
    (htemporaries : hierarchy.temporaries =
      treeTemporaries width elementBytes elementCount levels) {level : Nat}
    (hlevel : level < levels - 1) :
    (hierarchy.temporaries.find? fun temporary =>
        temporary.role == .blockSummaries && temporary.ordinal == UInt8.ofNat level) =
      some (summary width elementBytes elementCount level (2 * levels - 2 - level)) := by
  have hcap : kRangeTempCap = 12 := rfl
  have hinj : ∀ other, other < levels - 1 →
      ((UInt8.ofNat other == UInt8.ofNat level) = true ↔ other = level) := by
    intro other hother
    rw [beq_iff_eq, ← UInt8.toNat_inj, UInt8.toNat_ofNat_of_lt' (by show _ < 256; omega),
      UInt8.toNat_ofNat_of_lt' (by show _ < 256; omega)]
  rw [htemporaries, treeTemporaries, List.find?_map]
  have hfind : (List.range (levels - 1)).find? (fun other => UInt8.ofNat other == UInt8.ofNat level)
      = some level := by
    rw [List.find?_eq_some_iff_getElem]
    refine ⟨(hinj level hlevel).mpr rfl, level, by rw [List.length_range]; exact hlevel, ?_, ?_⟩
    · rw [List.getElem_range]
    · intro other hother
      rw [List.getElem_range, Bool.not_eq_true']
      rw [← Bool.not_eq_true, hinj other (by omega)]
      omega
  rw [show (fun temporary : RangeTempReq =>
      temporary.role == .blockSummaries && temporary.ordinal == UInt8.ofNat level) ∘
      (fun level => summary width elementBytes elementCount level (2 * levels - 2 - level)) =
      fun other => UInt8.ofNat other == UInt8.ofNat level from rfl, hfind]
  rfl

theorem flatMap_turnTemporaries {hierarchy : PrefixBuilder}
    (hlevels : Levels width elementCount maximumGroupCount levels)
    (htemporaries : hierarchy.temporaries =
      treeTemporaries width elementBytes elementCount levels) :
    (treeStages width elementCount levels).flatMap (turnTemporaries hierarchy) =
      treeTemporaries width elementBytes elementCount levels := by
  have hpos := hlevels.pos
  have hdowns : ((List.range (levels - 1)).map
      fun turn => fixupStage width elementCount (levels - 2 - turn)).flatMap
        (turnTemporaries hierarchy) = [] := by
    rw [List.flatMap_map, List.flatMap_eq_nil_iff]
    intro turn _
    show (if _ then _ else _) = _
    rw [if_neg]
    rintro ⟨hup | hup, -⟩
    · cases hup
    · cases hup
  have hups : ((List.range levels).map (upStage width elementCount)).flatMap
      (turnTemporaries hierarchy) = treeTemporaries width elementBytes elementCount levels := by
    rw [List.flatMap_map, treeTemporaries, show levels = levels - 1 + 1 by omega, List.range_succ,
      List.flatMap_append, Nat.add_sub_cancel]
    have hdisposition : ∀ level, (upStage width elementCount level).disposition = .prefixBlock ∨
        (upStage width elementCount level).disposition = .prefixSummary := by
      intro level
      rw [upStage]
      by_cases hzero : level = 0
      · rw [if_pos hzero]
        exact Or.inl rfl
      · rw [if_neg hzero]
        exact Or.inr rfl
    have hlast : turnTemporaries hierarchy (upStage width elementCount (levels - 1)) = [] := by
      show (if _ then _ else _) = _
      rw [if_neg]
      rintro ⟨-, hgroups⟩
      have hnext := (hlevels.groups_gt_one (Nat.sub_lt hpos Nat.one_pos)).mp hgroups
      omega
    rw [List.flatMap_singleton, hlast, List.append_nil, List.map_eq_flatMap]
    apply List.flatMap_congr
    intro level hlevel
    rw [List.mem_range] at hlevel
    show (if _ then _ else _) = _
    rw [if_pos]
    · show (List.find? _ _).toList = _
      rw [show (upStage width elementCount level).level = UInt8.ofNat level from rfl,
        find_summary hlevels.bound htemporaries hlevel, show levels - 1 + 1 = levels by omega]
      rfl
    · exact ⟨hdisposition level, (hlevels.groups_gt_one (by omega)).mpr (by omega)⟩
  rw [treeStages, List.flatMap_append, hups, hdowns, List.append_nil]

end Kept

/-! ### The candidates with scratch -/

section Builders

variable {shape : RangeShape} {caps : RangeCaps} {candidate : RangeCandidate}
  {evaluation : CandidateEvaluation}

/-- The running sums of the elements, as a temporary. -/
def prefixValues (shape : RangeShape) (lastStage : Nat) : RangeTempReq :=
  { role := .prefixValues
    ordinal := 0
    bytes := shape.payloadBytes
    alignment := shape.elementBytes.toUInt64
    firstStage := 0
    lastStage := UInt8.ofNat lastStage }

/-- The stage that takes the differences of the running sums. -/
def windowStage (shape : RangeShape) (groups : UInt64) (width : UInt32) : RangeStagePlan :=
  { disposition := .prefixWindow
    level := 0
    elementCount := shape.outputCount
    groups
    width }

theorem buildPrefixCpu_schedule (h : buildPrefixCpu shape caps candidate = Except.ok evaluation) :
    Schedule caps candidate evaluation
      [{ disposition := .prefixSequential
         level := 0
         elementCount := shape.inputCount
         groups := 1
         width := 0 }, windowStage shape 1 0] [prefixValues shape 1] := by
  rw [buildPrefixCpu] at h
  cases htraffic : affineBoundaryTraffic shape with
  | none =>
      rw [htraffic] at h
      cases h
  | some traffic =>
      rw [htraffic] at h
      obtain ⟨e1, h1, h⟩ := evaluated_bind.mp h
      obtain ⟨e2, h2, h⟩ := evaluated_bind.mp h
      obtain ⟨e3, h3, h⟩ := evaluated_bind.mp h
      rw [overflowing_eq_ok] at h
      obtain ⟨outputReads, -, h⟩ := evaluated_bind.mp h
      obtain ⟨outputReads, -, h⟩ := evaluated_bind.mp h
      obtain ⟨e4, h4, h⟩ := evaluated_bind.mp h
      obtain ⟨e5, h5, h⟩ := evaluated_bind.mp h
      obtain ⟨e6, h6, h⟩ := evaluated_bind.mp h
      obtain ⟨e7, h7, h⟩ := evaluated_bind.mp h
      obtain ⟨e8, h8, h⟩ := evaluated_bind.mp h
      obtain ⟨e9, h9, h⟩ := evaluated_bind.mp h
      obtain ⟨e10, h10, h⟩ := evaluated_bind.mp h
      obtain ⟨e11, h11, h⟩ := evaluated_bind.mp h
      obtain ⟨lanes, -, h⟩ := evaluated_bind.mp h
      have hcosts : Extends caps e3 e11 [] [] :=
        Extends.after_charge h4 (Extends.after_charge h5 (Extends.after_charge h6
          (Extends.after_charge h7 (Extends.after_charge h8 (Extends.after_charge h9
            (Extends.after_charge h10 (Extends.charge h11)))))))
      have hschedule := ((Extends.temporary h1).trans ((Extends.stage h2).trans
        ((Extends.stage h3).trans hcosts))).schedule
      injection h with h
      subst h
      exact ⟨hschedule.candidate, hschedule.stages, hschedule.temporaries, hschedule.fits⟩

theorem buildPrefixGpu_extends (h : buildPrefixGpu shape caps candidate = Except.ok evaluation) :
    ∃ hierarchy, planRangePrefixTree shape.inputCount candidate.width shape.elementBytes
        caps.maximumGroupCount = some hierarchy ∧
      Schedule caps candidate evaluation
        (hierarchy.stages.flatMap turnStages ++
          [windowStage shape (groupsFor shape.outputCount candidate.width.toUInt64)
            candidate.width])
        (prefixValues shape (hierarchy.stages.length -
            (if shape.inputCount > candidate.width.toUInt64 then 1 else 0)) ::
          hierarchy.stages.flatMap (turnTemporaries hierarchy)) := by
  obtain ⟨_, -, h⟩ := evaluated_bind.mp h
  cases htree : planRangePrefixTree shape.inputCount candidate.width shape.elementBytes
      caps.maximumGroupCount with
  | none =>
      rw [htree] at h
      cases h
  | some hierarchy =>
      rw [htree] at h
      obtain ⟨_, -, h⟩ := evaluated_bind.mp h
      obtain ⟨e1, h1, h⟩ := evaluated_bind.mp h
      obtain ⟨e2, h2, h⟩ := evaluated_bind.mp h
      rw [overflowing_eq_ok] at h
      obtain ⟨traffic, -, h⟩ := evaluated_bind.mp h
      obtain ⟨outputReads, -, h⟩ := evaluated_bind.mp h
      obtain ⟨outputReads, -, h⟩ := evaluated_bind.mp h
      obtain ⟨outputReads, -, h⟩ := evaluated_bind.mp h
      obtain ⟨e3, h3, h⟩ := evaluated_bind.mp h
      obtain ⟨e4, h4, h⟩ := evaluated_bind.mp h
      obtain ⟨outputReads, -, h⟩ := evaluated_bind.mp h
      obtain ⟨e5, h5, h⟩ := evaluated_bind.mp h
      obtain ⟨e6, h6, h⟩ := evaluated_bind.mp h
      obtain ⟨e7, h7, h⟩ := evaluated_bind.mp h
      obtain ⟨e8, h8, h⟩ := evaluated_bind.mp h
      obtain ⟨e9, h9, h10⟩ := evaluated_bind.mp h
      have hcosts : Extends caps e5 evaluation [] [] :=
        Extends.after_charge h6 (Extends.after_charge h7 (Extends.after_charge h8
          (Extends.after_charge h9 (Extends.charge h10))))
      have hschedule := ((Extends.temporary h1).trans ((prefixTurns_extends h2).trans
        (Extends.after_charge h3 (Extends.after_charge h4
          ((Extends.stage h5).trans hcosts))))).schedule
      simp only [List.append_nil, List.nil_append, List.singleton_append] at hschedule
      exact ⟨hierarchy, rfl, hschedule⟩

/-- **What a device is given to sum prefixes.** -/
theorem buildPrefixGpu_schedule (h : buildPrefixGpu shape caps candidate = Except.ok evaluation) :
    ∃ levels tree, Levels candidate.width shape.inputCount caps.maximumGroupCount levels ∧
      planRangePrefixTree shape.inputCount candidate.width shape.elementBytes kWordMax =
        some tree ∧
      tree.stages = treeStages candidate.width shape.inputCount levels ∧
      tree.temporaries = treeTemporaries candidate.width shape.elementBytes shape.inputCount levels ∧
      Schedule caps candidate evaluation
        (keptStages candidate.width shape.inputCount levels ++
          [windowStage shape (groupsFor shape.outputCount candidate.width.toUInt64)
            candidate.width])
        (prefixValues shape (tree.stages.length -
            (if shape.inputCount > candidate.width.toUInt64 then 1 else 0)) ::
          treeTemporaries candidate.width shape.elementBytes shape.inputCount levels) := by
  obtain ⟨tree, htree, hschedule⟩ := buildPrefixGpu_extends h
  obtain ⟨levels, hlevels, hstages, htemporaries⟩ := planRangePrefixTree_eq htree
  have hlarge : caps.maximumGroupCount ≤ kWordMax := by
    rw [UInt64.le_iff_toNat_le, kWordMax, allOnes_toNat]
    have := caps.maximumGroupCount.toNat_lt
    omega
  refine ⟨levels, tree, hlevels, planRangePrefixTree_mono hlarge htree, hstages, htemporaries, ?_⟩
  have hkept : tree.stages.flatMap turnStages =
      keptStages candidate.width shape.inputCount levels := by
    rw [hstages, flatMap_turnStages hlevels.bound]
  have htotals : tree.stages.flatMap (turnTemporaries tree) =
      treeTemporaries candidate.width shape.elementBytes shape.inputCount levels := by
    rw [hstages, flatMap_turnTemporaries hlevels htemporaries]
  rw [hkept, htotals] at hschedule
  exact hschedule

theorem buildBlockPrefixSuffix_schedule
    (h : buildBlockPrefixSuffix shape caps candidate = Except.ok evaluation) :
    ∃ padded, shape.affineSpan = some padded ∧ Schedule caps candidate evaluation
      [{ disposition := .blockPrefixSuffix
         level := 0
         elementCount := padded
         groups :=
           if caps.sourceVariant == .cpu then 1 else prepareGroups shape caps candidate padded
         width := if caps.sourceVariant == .cpu then 0 else candidate.width },
       { disposition := .blockWindow
         level := 0
         elementCount := shape.outputCount
         groups := if caps.sourceVariant == .cpu then 1 else queryGroups shape caps candidate
         width := if caps.sourceVariant == .cpu then 0 else candidate.width }]
      (blockValues .forwardValues shape padded ::
        if caps.sourceVariant == .metal then [] else [blockValues .backwardValues shape padded]) := by
  obtain ⟨_, -, h⟩ := evaluated_bind.mp h
  obtain ⟨padded, hpadded, h⟩ := evaluated_bind.mp h
  have hspan : shape.affineSpan = some padded := by
    cases hspan : shape.affineSpan with
    | none =>
        rw [hspan] at hpadded
        cases hpadded
    | some span =>
        rw [hspan] at hpadded
        injection hpadded with hpadded
        rw [hpadded]
  obtain ⟨_, -, h⟩ := evaluated_bind.mp h
  obtain ⟨_, -, h⟩ := evaluated_bind.mp h
  obtain ⟨_, -, h⟩ := evaluated_bind.mp h
  obtain ⟨e1, h1, h⟩ := evaluated_bind.mp h
  obtain ⟨e2, h2, h⟩ := evaluated_bind.mp h
  rw [overflowing_eq_ok] at h
  obtain ⟨e3, h3, h⟩ := evaluated_bind.mp h
  obtain ⟨e4, h4, h⟩ := evaluated_bind.mp h
  obtain ⟨e5, h5, h⟩ := evaluated_bind.mp h
  obtain ⟨e6, h6, h⟩ := evaluated_bind.mp h
  obtain ⟨e7, h7, h⟩ := evaluated_bind.mp h
  obtain ⟨e8, h8, h⟩ := evaluated_bind.mp h
  obtain ⟨e9, h9, h⟩ := evaluated_bind.mp h
  obtain ⟨e10, h10, h⟩ := evaluated_bind.mp h
  obtain ⟨e11, h11, h⟩ := evaluated_bind.mp h
  obtain ⟨e12, h12, h13⟩ := evaluated_bind.mp h
  have hcosts : Extends caps e4 evaluation [] [] :=
    Extends.after_charge h5 (Extends.after_charge h6 (Extends.after_charge h7
      (Extends.after_charge h8 (Extends.after_charge h9 (Extends.after_charge h10
        (Extends.after_charge h11 (Extends.after_charge h12 (Extends.charge h13))))))))
  have hbackward : Extends caps e1 e2 []
      (if caps.sourceVariant == .metal then [] else [blockValues .backwardValues shape padded]) := by
    rw [appendBackward] at h2
    by_cases hmetal : (caps.sourceVariant == .metal) = true
    · rw [if_pos hmetal] at h2 ⊢
      injection h2 with h2
      subst h2
      exact ⟨rfl, (List.append_nil _).symm, (List.append_nil _).symm, nofun⟩
    · rw [if_neg hmetal] at h2 ⊢
      exact Extends.temporary h2
  have hschedule := ((Extends.temporary h1).trans (hbackward.trans ((Extends.stage h3).trans
    ((Extends.stage h4).trans hcosts)))).schedule
  simp only [List.append_nil, List.nil_append, List.singleton_append] at hschedule
  exact ⟨padded, hspan, hschedule⟩

end Builders

end RunD.Range
