/-
Resident counts over a hierarchy, and over every selected plan.

Over a hierarchy a run decides level by level which stages fall silent.  A
stage up is active when its level has a hierarchy of its own for the smaller
count, a stage down when that hierarchy goes down to its level; together the
active stages are the hierarchy of the smaller count.
-/
import RunD.RangeProjection

namespace RunD.Range

/-! ### Runs of active stages -/

section Active

variable {stages : Nat → Option RangeDispatch} {most some' : Nat}

/-- The first stages, when just these are active. -/
theorem active_range (hle : some' ≤ most)
    (hactive : ∀ level, level < most →
      ((stages level).any (fun dispatch => dispatch.groups != 0) = true ↔ level < some')) :
    RangeRun.active ((List.range most).map stages) = (List.range some').map stages := by
  have hsplit : most = some' + (most - some') := by omega
  rw [RangeRun.active, hsplit, List.range_add, List.map_append, List.filter_append,
    List.filter_eq_self.mpr, List.filter_eq_nil_iff.mpr, List.append_nil]
  · intro dispatch hmem
    obtain ⟨level, hlevel, rfl⟩ := List.mem_map.mp hmem
    obtain ⟨place, hplace, rfl⟩ := List.mem_map.mp hlevel
    rw [List.mem_range] at hplace
    rw [hactive _ (by omega)]
    omega
  · intro dispatch hmem
    obtain ⟨level, hlevel, rfl⟩ := List.mem_map.mp hmem
    rw [List.mem_range] at hlevel
    exact (hactive level (by omega)).mpr hlevel

/-- The last of the stages in falling order, when just these are active. -/
theorem active_falling (hle : some' ≤ most)
    (hactive : ∀ level, 0 < level → level ≤ most →
      ((stages level).any (fun dispatch => dispatch.groups != 0) = true ↔ level ≤ some')) :
    RangeRun.active ((List.range most).map fun turn => stages (most - turn)) =
      (List.range some').map fun turn => stages (some' - turn) := by
  have hsplit : List.range most =
      List.range (most - some') ++ (List.range some').map (most - some' + ·) := by
    rw [← List.range_add, Nat.sub_add_cancel hle]
  rw [RangeRun.active, hsplit, List.map_append, List.filter_append, List.filter_eq_nil_iff.mpr,
    List.nil_append, List.map_map, List.filter_eq_self.mpr]
  · apply List.map_congr_left
    intro turn hturn
    rw [List.mem_range] at hturn
    show stages (most - (most - some' + turn)) = _
    rw [show most - (most - some' + turn) = some' - turn by omega]
  · intro dispatch hmem
    obtain ⟨turn, hturn, rfl⟩ := List.mem_map.mp hmem
    rw [List.mem_range] at hturn
    show (stages (most - (most - some' + turn))).any _ = true
    exact (hactive _ (by omega) (by omega)).mpr (by omega)
  · intro dispatch hmem
    obtain ⟨turn, hturn, rfl⟩ := List.mem_map.mp hmem
    rw [List.mem_range] at hturn
    rw [hactive _ (by omega) (by omega)]
    omega

end Active

/-! ### The stages of a hierarchy -/

section Hierarchy

variable {run : RangeRun} {width : UInt32} {most maximumGroupCount : UInt64} {level levels : Nat}

theorem prefixCountFrom_eq (hwidth : width.toUInt64 ≠ 0) (count : UInt64) (turns level : Nat) :
    RangeRun.prefixCountFrom width turns (levelCount width count level) =
      levelCount width count (level + turns) := by
  induction turns generalizing level with
  | zero => rfl
  | succ turns ih =>
      rw [RangeRun.prefixCountFrom, groups_eq hwidth]
      have hnext := ih (level + 1)
      rw [show level + 1 + turns = level + (turns + 1) by omega] at hnext
      by_cases hzero : levelCount width count level = 0
      · -- from an empty level on all levels are empty
        have hempty : ∀ turns, levelCount width count (level + turns) = 0 := by
          intro turns
          induction turns with
          | zero => exact hzero
          | succ turns ih =>
              show groupsFor (levelCount width count (level + turns)) width.toUInt64 = 0
              rw [ih]
              exact levelCount_zero hwidth 1
        rw [if_pos hzero, hzero, hempty]
      · rw [if_neg hzero]
        exact hnext

theorem prefixCount_eq (hwidth : run.plan.candidate.width.toUInt64 ≠ 0) (hlevel : level < 256) :
    run.prefixCount (UInt8.ofNat level) =
      levelCount run.plan.candidate.width run.count level := by
  rw [RangeRun.prefixCount, UInt8.toNat_ofNat_of_lt' hlevel]
  have hfrom := prefixCountFrom_eq hwidth run.count level 0
  rw [Nat.zero_add] at hfrom
  exact hfrom

/-- A level above the first has a single group just when the level below fits one. -/
theorem levelCount_le_width (hwidth : width.toUInt64 ≠ 0) {count : UInt64} :
    levelCount width count level ≤ width.toUInt64 ↔ levelCount width count (level + 1) ≤ 1 := by
  rw [← UInt64.not_lt, ← UInt64.not_lt, not_iff_not]
  exact (groupsFor_gt_one hwidth).symm

variable (hwidth : run.plan.candidate.width.toUInt64 ≠ 0)

include hwidth

/-- The projection of a stage up: its groups, unless the level below fits a single one. -/
theorem project_up (hlevel : level < 256) :
    run.project (upStage run.plan.candidate.width most level) =
      some (run.dispatchOf (upStage run.plan.candidate.width most level)
        (levelCount run.plan.candidate.width run.count level,
          if level ≠ 0 ∧ levelCount run.plan.candidate.width run.count level ≤ 1 then 0
          else levelCount run.plan.candidate.width run.count (level + 1))) := by
  have hkind : run.measure (upStage run.plan.candidate.width most level) =
      some (run.prefixCount (UInt8.ofNat level),
        if UInt8.ofNat level ≠ 0 ∧ run.prefixCount (UInt8.ofNat level - 1) ≤
            run.plan.candidate.width.toUInt64 then 0
        else RangeRun.groups (run.prefixCount (UInt8.ofNat level)) run.plan.candidate.width) := by
    rw [RangeRun.measure, upStage]
    by_cases hzero : level = 0
    · rw [if_pos hzero]
    · rw [if_neg hzero]
  rw [RangeRun.project, hkind, prefixCount_eq hwidth hlevel, groups_eq hwidth]
  by_cases hzero : level = 0
  · rw [hzero, if_neg (fun hboth => hboth.1 rfl), if_neg (fun hboth => hboth.1 rfl)]
    rfl
  · have hpos := Nat.pos_of_ne_zero hzero
    have hbelow : levelCount run.plan.candidate.width run.count (level - 1) ≤
          run.plan.candidate.width.toUInt64 ↔
        levelCount run.plan.candidate.width run.count level ≤ 1 := by
      rw [levelCount_le_width hwidth, Nat.sub_add_cancel hpos]
    rw [ofNat_sub_one hpos hlevel, prefixCount_eq hwidth (by omega)]
    by_cases hsingle : levelCount run.plan.candidate.width run.count level ≤ 1
    · rw [if_pos ⟨ofNat_ne_zero hpos hlevel, hbelow.mpr hsingle⟩, if_pos ⟨hzero, hsingle⟩]
      rfl
    · rw [if_neg (fun hboth => hsingle (hbelow.mp hboth.2)),
        if_neg (fun hboth => hsingle hboth.2)]
      rfl

/-- The projection of a stage down: its groups, unless there is a single one. -/
theorem project_fixup (hlevel : level < 256) :
    run.project (fixupStage run.plan.candidate.width most level) =
      some (run.dispatchOf (fixupStage run.plan.candidate.width most level)
        (levelCount run.plan.candidate.width run.count level,
          if levelCount run.plan.candidate.width run.count (level + 1) ≤ 1 then 0
          else levelCount run.plan.candidate.width run.count (level + 1))) := by
  rw [RangeRun.project, RangeRun.measure, fixupStage]
  dsimp only
  rw [prefixCount_eq hwidth hlevel, groups_eq hwidth]
  rfl

theorem project_window :
    run.project (windowStage run.plan.shape
        (groupsFor run.plan.shape.outputCount run.plan.candidate.width.toUInt64)
        run.plan.candidate.width) =
      some ((run.plan.counted run.count).freeze (windowStage (run.plan.counted run.count).shape
        (groupsFor run.count run.plan.candidate.width.toUInt64) run.plan.candidate.width)) := by
  rw [RangeRun.project, RangeRun.measure, windowStage]
  dsimp only
  rw [groups_eq hwidth]
  rfl

/-! ### The hierarchy of a smaller count -/

theorem groups_le_one {values : UInt64} (hle : values ≤ 1) :
    groupsFor values run.plan.candidate.width.toUInt64 ≤ 1 := by
  have hpos : 0 < run.plan.candidate.width.toUInt64.toNat :=
    Nat.pos_of_ne_zero fun hz => hwidth (UInt64.toNat_inj.mp hz)
  rw [UInt64.le_iff_toNat_le] at hle ⊢
  refine (groupsFor_le_iff hwidth).mpr ?_
  change values.toNat ≤ 1 at hle
  show values.toNat ≤ 1 * _
  omega

/-- The levels from the last on have a single value. -/
theorem levelCount_le_one_iff (hne : run.count ≠ 0)
    (hlevels : Levels run.plan.candidate.width run.count maximumGroupCount levels)
    (hpos : 0 < level) :
    levelCount run.plan.candidate.width run.count level ≤ 1 ↔ levels ≤ level := by
  constructor
  · intro hle
    by_contra hlt
    rcases hlevels.below level (by omega) with hone | hzero
    · exact hone (eq_one_of_le (levelCount_ne_zero hwidth hne level) hle)
    · omega
  · intro hle
    have hstay : ∀ more, levelCount run.plan.candidate.width run.count (levels + more) ≤ 1 := by
      intro more
      induction more with
      | zero =>
          rw [Nat.add_zero, hlevels.top]
          exact UInt64.le_refl 1
      | succ more ih => exact groups_le_one hwidth ih
    have hlast := hstay (level - levels)
    rw [Nat.add_sub_cancel' hle] at hlast
    exact hlast

/-- A stage up below the last level of the smaller hierarchy is a stage of it. -/
theorem project_up_active (hne : run.count ≠ 0)
    (hlevels : Levels run.plan.candidate.width run.count maximumGroupCount levels)
    (hlevel : level < levels) (hsmall : level < 256) :
    run.project (upStage run.plan.candidate.width most level) =
      some ((run.plan.counted run.count).freeze
        (upStage run.plan.candidate.width run.count level)) := by
  have hbusy : ¬ (level ≠ 0 ∧ levelCount run.plan.candidate.width run.count level ≤ 1) := by
    rintro ⟨hzero, hle⟩
    have hlast := (levelCount_le_one_iff hwidth hne hlevels (Nat.pos_of_ne_zero hzero)).mp hle
    omega
  have hkind : ∀ count, (upStage run.plan.candidate.width count level).disposition ≠
      .blockPrefixSuffix := by
    intro count
    rw [upStage]
    by_cases hzero : level = 0
    · rw [if_pos hzero]
      intro hsame
      cases hsame
    · rw [if_neg hzero]
      intro hsame
      cases hsame
  rw [project_up hwidth hsmall, if_neg hbusy, RangeRun.dispatchOf, if_neg (hkind most),
    RangePlan.freeze, RangePlan.params, if_neg (hkind run.count)]
  rfl

/-- A stage down below the last level but one of the smaller hierarchy is a stage of it. -/
theorem project_fixup_active (hne : run.count ≠ 0)
    (hlevels : Levels run.plan.candidate.width run.count maximumGroupCount levels)
    (hlevel : level + 1 < levels) (hsmall : level < 256) :
    run.project (fixupStage run.plan.candidate.width most level) =
      some ((run.plan.counted run.count).freeze
        (fixupStage run.plan.candidate.width run.count level)) := by
  have hbusy : ¬ levelCount run.plan.candidate.width run.count (level + 1) ≤ 1 := by
    rw [levelCount_le_one_iff hwidth hne hlevels (Nat.succ_pos level)]
    omega
  rw [project_fixup hwidth hsmall, if_neg hbusy]
  rfl

theorem up_active_iff (hne : run.count ≠ 0)
    (hlevels : Levels run.plan.candidate.width run.count maximumGroupCount levels)
    (hsmall : level < 256) :
    ((run.project (upStage run.plan.candidate.width most level)).any
      (fun dispatch => dispatch.groups != 0) = true ↔ level < levels) := by
  rw [project_up hwidth hsmall]
  show ((if _ then _ else _ : UInt64) != 0) = true ↔ _
  rw [bne_iff_ne]
  by_cases hlevel : level < levels
  · have hbusy : ¬ (level ≠ 0 ∧ levelCount run.plan.candidate.width run.count level ≤ 1) := by
      rintro ⟨hzero, hle⟩
      have hlast := (levelCount_le_one_iff hwidth hne hlevels (Nat.pos_of_ne_zero hzero)).mp hle
      omega
    rw [if_neg hbusy]
    exact iff_of_true (levelCount_ne_zero hwidth hne (level + 1)) hlevel
  · have hpos := hlevels.pos
    have hle := (levelCount_le_one_iff hwidth hne hlevels (by omega)).mpr (Nat.not_lt.mp hlevel)
    rw [if_pos ⟨by omega, hle⟩]
    exact iff_of_false (not_not_intro rfl) hlevel

theorem fixup_active_iff (hne : run.count ≠ 0)
    (hlevels : Levels run.plan.candidate.width run.count maximumGroupCount levels)
    (hpos : 0 < level) (hsmall : level < 256) :
    ((run.project (fixupStage run.plan.candidate.width most level)).any
      (fun dispatch => dispatch.groups != 0) = true ↔ level ≤ levels - 2) := by
  rw [project_fixup hwidth hsmall]
  show ((if _ then _ else _ : UInt64) != 0) = true ↔ _
  rw [bne_iff_ne]
  by_cases hle : levelCount run.plan.candidate.width run.count (level + 1) ≤ 1
  · rw [if_pos hle]
    have hlast := (levelCount_le_one_iff hwidth hne hlevels (Nat.succ_pos level)).mp hle
    exact iff_of_false (not_not_intro rfl) (by omega)
  · rw [if_neg hle]
    rw [levelCount_le_one_iff hwidth hne hlevels (Nat.succ_pos level)] at hle
    exact iff_of_true (levelCount_ne_zero hwidth hne (level + 1)) (by omega)

end Hierarchy

/-! ### Prefix sums on a device -/

section Device

variable {run : RangeRun} {tree : PrefixBuilder} {levels : Nat}

theorem lists_prefixGpu {plan : RangePlan} (hpath : plan.candidate.disposition = .prefixDifference)
    (hdevice : plan.sourceVariant ≠ .cpu) (hwidth : plan.candidate.width.toUInt64 ≠ 0)
    (htree : planRangePrefixTree plan.shape.inputCount plan.candidate.width
      plan.shape.elementBytes kWordMax = some tree)
    (hlevels : Levels plan.candidate.width plan.shape.inputCount kWordMax levels)
    (hstages : tree.stages = treeStages plan.candidate.width plan.shape.inputCount levels)
    (hcount : plan.stageCount = tree.stages.length + 1 -
      (if plan.shape.inputCount > plan.candidate.width.toUInt64 then 1 else 0)) :
    Lists plan (keptStages plan.candidate.width plan.shape.inputCount levels ++
      [windowStage plan.shape (groupsFor plan.shape.outputCount plan.candidate.width.toUInt64)
        plan.candidate.width]) where
  count := by
    rw [hcount, hstages, ← keptStages_succ hlevels hwidth, List.length_append,
      List.length_singleton]
  stage index hindex :=
    stage_prefixGpu hpath hdevice htree hlevels hwidth hstages hcount hindex

/-- The stages of a hierarchy, and the window. -/
theorem mem_kept {width : UInt32} {elementCount : UInt64} {window stage : RangeStagePlan}
    (hmem : stage ∈ keptStages width elementCount levels ++ [window]) :
    (∃ level < levels, stage = upStage width elementCount level) ∨
      (∃ level, 0 < level ∧ level + 1 < levels ∧ stage = fixupStage width elementCount level) ∨
      stage = window := by
  rcases List.mem_append.mp hmem with hkept | hwindow
  · rcases List.mem_append.mp hkept with hup | hdown
    · obtain ⟨level, hlevel, rfl⟩ := List.mem_map.mp hup
      exact Or.inl ⟨level, List.mem_range.mp hlevel, rfl⟩
    · obtain ⟨turn, hturn, rfl⟩ := List.mem_map.mp hdown
      rw [List.mem_range] at hturn
      exact Or.inr (Or.inl ⟨levels - 2 - turn, by omega, by omega, rfl⟩)
  · exact Or.inr (Or.inr (List.mem_singleton.mp hwindow))

theorem projects_prefixGpu (hvalid : run.plan.shape.valid = true)
    (hresident : run.plan.shape.residentCounted = true)
    (hcount : run.count ≤ run.plan.shape.inputCount)
    (hpath : run.plan.candidate.disposition = .prefixDifference)
    (hdevice : run.plan.sourceVariant ≠ .cpu) (hwidth : run.plan.candidate.width.toUInt64 ≠ 0)
    (htree : planRangePrefixTree run.plan.shape.inputCount run.plan.candidate.width
      run.plan.shape.elementBytes kWordMax = some tree)
    (hstageCount : run.plan.stageCount = tree.stages.length + 1 -
      (if run.plan.shape.inputCount > run.plan.candidate.width.toUInt64 then 1 else 0)) :
    run.Projects := by
  have hshape := resident_of_valid hvalid hresident
  obtain ⟨levels, hlevels, hstages, -⟩ := planRangePrefixTree_eq htree
  have hbound := hlevels.bound
  have hcap : kRangeTempCap = 12 := rfl
  -- the hierarchy of the count that is run
  have hfewer : run.count ≠ 0 → ∃ small ≤ levels,
      Levels run.plan.candidate.width run.count kWordMax small ∧
        Lists (run.plan.counted run.count)
          (keptStages run.plan.candidate.width run.count small ++
            [windowStage (run.plan.counted run.count).shape
              (groupsFor run.count run.plan.candidate.width.toUInt64)
              run.plan.candidate.width]) := by
    intro hne
    obtain ⟨small, smaller, hsmall, hlevelsSmall, hsmaller, hstagesSmall⟩ :=
      planRangePrefixTree_fewer hwidth htree hlevels hshape.bytes hne hcount
    refine ⟨small, hsmall, hlevelsSmall, ?_⟩
    have hcountedStages : (run.plan.counted run.count).stageCount =
        smaller.stages.length + 1 -
          (if run.count > run.plan.candidate.width.toUInt64 then 1 else 0) := by
      show run.plan.countedStages run.count = _
      rw [RangePlan.countedStages, if_pos ⟨hpath, hdevice⟩, hsmaller]
    exact @lists_prefixGpu smaller small (run.plan.counted run.count) hpath hdevice hwidth hsmaller
      hlevelsSmall hstagesSmall hcountedStages
  have hlists := lists_prefixGpu hpath hdevice hwidth htree hlevels hstages hstageCount
  by_cases hzero : run.count = 0
  · -- nothing is active, and there is no smaller hierarchy
    have hempty : ∀ level, levelCount run.plan.candidate.width run.count level = 0 := by
      intro level
      rw [hzero]
      exact levelCount_zero hwidth level
    have hidle : ∀ stage ∈ keptStages run.plan.candidate.width run.plan.shape.inputCount levels ++
        [windowStage run.plan.shape
          (groupsFor run.plan.shape.outputCount run.plan.candidate.width.toUInt64)
          run.plan.candidate.width], ∃ dispatch, run.project stage = some dispatch ∧
            dispatch.groups = 0 := by
      intro stage hstage
      rcases mem_kept hstage with ⟨level, hlevel, rfl⟩ | ⟨level, hpos, hlevel, rfl⟩ | rfl
      · refine ⟨_, project_up hwidth (by omega), ?_⟩
        show (if _ then _ else _ : UInt64) = 0
        rw [hempty (level + 1), ite_self]
      · refine ⟨_, project_fixup hwidth (by omega), ?_⟩
        show (if _ then _ else _ : UInt64) = 0
        rw [hempty (level + 1), ite_self]
      · refine ⟨_, project_window hwidth, ?_⟩
        exact hempty 1
    refine @projects_of run _ [] hresident (fun hne => absurd hzero hne) hlists
      (fun hne => absurd hzero hne) (fun _ => hidle) (fun hne => absurd hzero hne) ?_ ?_
    · intro stage hstage
      obtain ⟨dispatch, hproject, hgroups⟩ := hidle stage hstage
      refine ⟨dispatch, hproject, ?_⟩
      rw [hgroups]
      exact UInt64.le_iff_toNat_le.mpr (Nat.zero_le _)
    · intro hwhole
      exact absurd (hwhole.symm.trans hzero) hshape.positive
  · obtain ⟨small, hsmall, hlevelsSmall, hlistsSmall⟩ := hfewer hzero
    refine projects_of hresident (fun hne => valid_counted hvalid hshape hne hcount) hlists
      (fun _ => hlistsSmall) (fun hnone => absurd hnone hzero) ?_ ?_ ?_
    · intro _
      rw [keptStages, keptStages, List.map_append, List.map_append, List.map_append,
        List.map_append, List.map_map, List.map_map, List.map_map, List.map_map, RangeRun.active,
        List.filter_append, List.filter_append]
      congr 1
      · congr 1
        · have hups := @active_range
            (fun level => run.project
              (upStage run.plan.candidate.width run.plan.shape.inputCount level))
            levels small hsmall
            (fun level hlevel => up_active_iff hwidth hzero hlevelsSmall (by omega))
          refine hups.trans ?_
          apply List.map_congr_left
          intro level hlevel
          rw [List.mem_range] at hlevel
          exact project_up_active hwidth hzero hlevelsSmall hlevel (by omega)
        · have hdowns := @active_falling
            (fun level => run.project
              (fixupStage run.plan.candidate.width run.plan.shape.inputCount level))
            (levels - 2) (small - 2) (by omega)
            (fun level hpos hlevel => fixup_active_iff hwidth hzero hlevelsSmall hpos (by omega))
          refine hdowns.trans ?_
          apply List.map_congr_left
          intro turn hturn
          rw [List.mem_range] at hturn
          exact project_fixup_active hwidth hzero hlevelsSmall (by omega) (by omega)
      · rw [List.map_singleton, List.map_singleton, project_window hwidth]
        apply List.filter_eq_self.mpr
        intro dispatch hdispatch
        rw [List.mem_singleton.mp hdispatch]
        exact bne_iff_ne.mpr (groupsFor_ne_zero hwidth hzero)
    · intro stage hstage
      rcases mem_kept hstage with ⟨level, hlevel, rfl⟩ | ⟨level, hpos, hlevel, rfl⟩ | rfl
      · refine ⟨_, project_up hwidth (by omega), ?_⟩
        show (if _ then _ else _ : UInt64) ≤ levelCount _ _ (level + 1)
        split
        · exact UInt64.le_iff_toNat_le.mpr (Nat.zero_le _)
        · exact levelCount_mono hwidth hcount (level + 1)
      · refine ⟨_, project_fixup hwidth (by omega), ?_⟩
        show (if _ then _ else _ : UInt64) ≤ levelCount _ _ (level + 1)
        split
        · exact UInt64.le_iff_toNat_le.mpr (Nat.zero_le _)
        · exact levelCount_mono hwidth hcount (level + 1)
      · refine ⟨_, project_window hwidth, ?_⟩
        exact groupsFor_mono hwidth (hshape.counts ▸ hcount)
    · intro hwhole stage hstage
      have hlevelsWhole : Levels run.plan.candidate.width run.count kWordMax levels := by
        rw [hwhole]
        exact hlevels
      rcases mem_kept hstage with ⟨level, hlevel, rfl⟩ | ⟨level, hpos, hlevel, rfl⟩ | rfl
      · rw [project_up_active hwidth hzero hlevelsWhole hlevel (by omega), hwhole,
          freeze_whole hshape.counts]
      · rw [project_fixup_active hwidth hzero hlevelsWhole hlevel (by omega), hwhole,
          freeze_whole hshape.counts]
      · have hsame : (run.plan.counted run.plan.shape.inputCount).shape = run.plan.shape :=
          shape_whole hshape.counts
        rw [project_window hwidth, hwhole, freeze_whole hshape.counts, ← hshape.counts, hsame]

end Device

/-! ### Selected plans -/

theorem make_eq_some {plan : RangePlan} {count : UInt64}
    (hresident : plan.shape.residentCounted = true) (hcount : count ≤ plan.shape.inputCount) :
    RangeRun.make plan count = some { plan, count } := by
  rw [RangeRun.make, if_neg]
  rintro (hgreater | ⟨hdescribed, -⟩)
  · exact absurd hcount (UInt64.not_le.mpr hgreater)
  · rw [hresident] at hdescribed
    cases hdescribed

/-- **The runs of a selected plan give what their counts ask for, except over blocks of windows
that do not fit 32 bits.** -/
theorem rangeRun_projects_iff (shape : RangeShape) (caps : RangeCaps) (plan : RangePlan)
    (h : buildRangePlan shape caps = Except.ok plan) (hresident : shape.residentCounted = true) :
    (∀ count, count ≤ shape.inputCount →
        ∃ run, RangeRun.make plan count = some run ∧ run.Projects) ↔
      (plan.candidate.disposition = .blockPrefixSuffix → shape.windowSize.toNat < 2 ^ 32) := by
  obtain ⟨hvalid, hcaps, evaluation, hchoice, hkeeps⟩ := buildRangePlan_keeps h
  have hcpu := cpuOnly_iff hcaps
  obtain rfl : plan.shape = shape := hkeeps.shape
  have hbuilt := built_of_found (pareto_subset (least_mem hchoice))
  have hruns : (∀ count, count ≤ plan.shape.inputCount →
        ∃ run, RangeRun.make plan count = some run ∧ run.Projects) ↔
      ∀ count, count ≤ plan.shape.inputCount →
        RangeRun.Projects { plan := plan, count := count } := by
    constructor
    · intro hruns count hcount
      obtain ⟨run, hmake, hprojects⟩ := hruns count hcount
      rw [make_eq_some hresident hcount] at hmake
      injection hmake with hmake
      rw [hmake]
      exact hprojects
    · intro hprojects count hcount
      exact ⟨_, make_eq_some hresident hcount, hprojects count hcount⟩
  rw [hruns]
  -- a path of another kind meets the condition, and gives what is asked for
  have hother : plan.candidate.disposition ≠ .blockPrefixSuffix →
      (∀ count, count ≤ plan.shape.inputCount →
        RangeRun.Projects { plan := plan, count := count }) →
      ((∀ count, count ≤ plan.shape.inputCount →
          RangeRun.Projects { plan := plan, count := count }) ↔
        (plan.candidate.disposition = .blockPrefixSuffix →
          plan.shape.windowSize.toNat < 2 ^ 32)) := fun hpath hprojects =>
    iff_of_true hprojects fun hblock => absurd hblock hpath
  cases hbuilt with
  | direct candidate path built =>
      have hschedule := buildDirect_schedule built
      have hpath : plan.candidate.disposition = .direct := by
        rw [hkeeps.candidate, hschedule.candidate, path]
      have hone : plan.stageCount = 1 := by
        rw [hkeeps.stageCount, hschedule.stages]
        rfl
      refine hother (by simp [hpath]) fun count hcount => ?_
      exact @projects_direct ⟨plan, count⟩ hvalid hresident hcount hpath hone
  | sharedHalo candidate path width built =>
      have hschedule := (buildSharedHalo_schedule built).2
      have hcandidate := hkeeps.candidate.trans hschedule.candidate
      have hpath : plan.candidate.disposition = .sharedHalo := by
        rw [hcandidate, path]
      have hone : plan.stageCount = 1 := by
        rw [hkeeps.stageCount, hschedule.stages]
        rfl
      have hwidth : plan.candidate.width ≠ 0 := by
        intro hzero
        rw [hcandidate] at hzero
        rw [hzero] at width
        cases width
      refine hother (by simp [hpath]) fun count hcount => ?_
      exact @projects_sharedHalo ⟨plan, count⟩ hvalid hresident hcount hpath hone hwidth
  | tiledDifference candidate path width built =>
      have hschedule := buildTiledDifference_schedule built
      have hcandidate := hkeeps.candidate.trans hschedule.candidate
      have hpath : plan.candidate.disposition = .tiledDifference := by
        rw [hcandidate, path]
      have hone : plan.stageCount = 1 := by
        rw [hkeeps.stageCount, hschedule.stages]
        rfl
      have hwidth : plan.candidate.width * kRangeTileOutputsPerLane ≠ 0 := by
        rw [hcandidate]
        simp only [RangeCandidate.supportedWidth, Bool.or_eq_true, beq_iff_eq] at width
        rcases width with (hwidth | hwidth) | hwidth
        · rw [hwidth]
          decide
        · rw [hwidth]
          decide
        · rw [hwidth]
          decide
      refine hother (by simp [hpath]) fun count hcount => ?_
      exact @projects_tiledDifference ⟨plan, count⟩ hvalid hresident hcount hpath hone hwidth
  | prefixDifference candidate path width built =>
      obtain ⟨_, -, built⟩ := evaluated_bind.mp built
      by_cases honly : caps.cpuOnly = true
      · rw [if_pos honly] at built
        have hschedule := buildPrefixCpu_schedule built
        have hpath : plan.candidate.disposition = .prefixDifference := by
          rw [hkeeps.candidate, hschedule.candidate, path]
        have htwo : plan.stageCount = 2 := by
          rw [hkeeps.stageCount, hschedule.stages]
          rfl
        refine hother (by simp [hpath]) fun count hcount => ?_
        exact @projects_prefixCpu ⟨plan, count⟩ hvalid hresident hcount hpath
          (hkeeps.sourceVariant.trans (hcpu.mp honly)) htwo
      · rw [if_neg honly] at built
        obtain ⟨levels, tree, hlevels, htree, hstages, -, hschedule⟩ :=
          buildPrefixGpu_schedule built
        have hwidth := supportedWidth_ne_zero width
        obtain rfl : plan.candidate = candidate := hkeeps.candidate.trans hschedule.candidate
        have hcount : plan.stageCount = tree.stages.length + 1 -
            (if plan.shape.inputCount > plan.candidate.width.toUInt64 then 1 else 0) := by
          rw [hkeeps.stageCount, hschedule.stages, hstages, ← keptStages_succ hlevels hwidth,
            List.length_append, List.length_singleton]
        have hdevice : plan.sourceVariant ≠ .cpu := by
          rw [hkeeps.sourceVariant]
          exact fun hsource => honly (hcpu.mpr hsource)
        refine hother (by simp [path]) fun count hle => ?_
        exact @projects_prefixGpu ⟨plan, count⟩ tree hvalid hresident hle path hdevice hwidth htree
          hcount
  | blockPrefixSuffix candidate path built =>
      obtain ⟨span, hspan, hschedule⟩ := buildBlockPrefixSuffix_schedule built
      have hpath : plan.candidate.disposition = .blockPrefixSuffix := by
        rw [hkeeps.candidate, hschedule.candidate, path]
      have htwo : plan.stageCount = 2 := by
        rw [hkeeps.stageCount, hschedule.stages]
        rfl
      constructor
      · intro hprojects _
        by_contra hwide
        exact @not_projects_blocks ⟨plan, plan.shape.inputCount⟩ hvalid hresident hpath htwo span
          hspan (Nat.not_lt.mp hwide) rfl (hprojects _ (UInt64.le_refl _))
      · intro hnarrow count hcount
        exact @projects_blocks ⟨plan, count⟩ hvalid hresident hcount hpath htwo span hspan
          (hnarrow hpath)

/-- Least elements over windows that reach over more positions than 32 bits count. -/
def wideLeast : RangeShape :=
  { traits := { operation := .minimum, domain := .u32, arithmeticLaw := .orderOnly }
    boundary := .clamp
    inputCount := 10
    outputCount := 10
    windowSize := 4294967297
    stride := 1
    padding := 2147483648
    elementBytes := 4
    count := .u32 }

/-- A processor with every candidate of one. -/
def fullProcessor : RangeCaps :=
  { disposition := .cpu
    sourceVariant := .cpu
    legalWidthMask := 0
    maximumThreadsPerWorkgroup := 0
    sharedMemoryOccupancyBudget := 0
    sharedMemoryLimit := 0
    maximumGroupCount := 0
    maximumStorageElementCount := kWordMax
    maximumStorageBindingBytes := kWordMax
    supportedCandidates := 13 }

/-- The plan of these elements on that processor, over blocks. -/
def wideLeastPlan : RangePlan :=
  { shape := wideLeast
    candidate := { disposition := .blockPrefixSuffix, width := 64, radiusCapacity := 0 }
    sourceVariant := .cpu
    cost :=
      { globalReadBytes := 34359738528
        globalWriteBytes := 34359738488
        combineOps := 8589934618
        scratchBytes := 34359738448
        dispatchCount := 2
        workgroupCount := 2
        launchedLanes := 8589934622 }
    stageCount := 2
    temporaryCount := 2
    legalCandidateCount := 2
    paretoCandidateCount := 2 }

/-- Not every run gives what its count asks for: the blocks of this plan are counted with a window
of one position. -/
theorem rangeRun_projects_not : ¬ ∀ (shape : RangeShape) (caps : RangeCaps) (plan : RangePlan),
    buildRangePlan shape caps = Except.ok plan → shape.residentCounted = true →
      ∀ count, count ≤ shape.inputCount →
        ∃ run, RangeRun.make plan count = some run ∧ run.Projects := by
  intro hall
  have hplan : buildRangePlan wideLeast fullProcessor = Except.ok wideLeastPlan := by
    decide
  obtain ⟨run, hmake, hprojects⟩ := hall wideLeast fullProcessor wideLeastPlan hplan rfl 10
    (UInt64.le_refl 10)
  injection hmake with hmake
  subst hmake
  have hwhole := hprojects.whole rfl
  revert hwhole
  decide

theorem rangeRun_projects_wideSums :
    buildRangePlan wideSums narrowDevice = Except.ok wideSumsPlan ∧
      ∃ run, RangeRun.make wideSumsPlan 70 = some run ∧ run.Projects := by
  have hplan : buildRangePlan wideSums narrowDevice = Except.ok wideSumsPlan := by
    decide
  exact ⟨hplan, (rangeRun_projects_iff wideSums narrowDevice wideSumsPlan hplan rfl).mpr nofun 70
    (by decide)⟩

end RunD.Range
