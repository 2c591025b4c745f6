/-
The prefix hierarchy in closed form.

Level `0` of a hierarchy has the elements, and each level above it the block
totals of the one below.  A tree that is built has the levels up to the first
with a single group, one stage up for each, and one stage down for each but
the last (`planRangePrefixTree_eq`).  The limit on groups decides only whether
there is a tree (`planRangePrefixTree_mono`).
-/
import RunD.RangeModel

namespace RunD.Range

/-! ### Levels -/

/-- The number of values of a level. -/
def levelCount (width : UInt32) (elementCount : UInt64) : Nat → UInt64
  | 0 => elementCount
  | level + 1 => groupsFor (levelCount width elementCount level) width.toUInt64

/-- The stage that goes up from a level. -/
def upStage (width : UInt32) (elementCount : UInt64) (level : Nat) : RangeStagePlan :=
  { disposition := if level = 0 then .prefixBlock else .prefixSummary
    level := UInt8.ofNat level
    elementCount := levelCount width elementCount level
    groups := levelCount width elementCount (level + 1)
    width }

/-- The stage that goes down to a level. -/
def fixupStage (width : UInt32) (elementCount : UInt64) (level : Nat) : RangeStagePlan :=
  { disposition := .prefixFixup
    level := UInt8.ofNat level
    elementCount := levelCount width elementCount level
    groups := levelCount width elementCount (level + 1)
    width }

/-- The block totals of a level. -/
def summary (width elementBytes : UInt32) (elementCount : UInt64) (level lastStage : Nat) :
    RangeTempReq :=
  { role := .blockSummaries
    ordinal := UInt8.ofNat level
    bytes := levelCount width elementCount (level + 1) * elementBytes.toUInt64
    alignment := elementBytes.toUInt64
    firstStage := UInt8.ofNat level
    lastStage := UInt8.ofNat lastStage }

/-- A hierarchy has this many levels: the first with a single group is the last. -/
structure Levels (width : UInt32) (elementCount maximumGroupCount : UInt64) (levels : Nat) :
    Prop where
  pos : 0 < levels
  bound : levels ≤ kRangeTempCap
  top : levelCount width elementCount levels = 1
  below : ∀ level, level < levels → levelCount width elementCount level ≠ 1 ∨ level = 0
  fits : ∀ level, level < levels → levelCount width elementCount (level + 1) ≠ 0 ∧
    levelCount width elementCount (level + 1) ≤ maximumGroupCount

/-! ### Groups -/

theorem groupsFor_le_iff {count size : UInt64} (hsize : size ≠ 0) {groups : Nat} :
    (groupsFor count size).toNat ≤ groups ↔ count.toNat ≤ groups * size.toNat := by
  have hpos : 0 < size.toNat := Nat.pos_of_ne_zero fun hz => hsize (UInt64.toNat_inj.mp hz)
  rw [groupsFor, checkedCeil_toNat hsize]
  exact ceil_le_iff hpos

theorem groupsFor_gt_one {count size : UInt64} (hsize : size ≠ 0) :
    1 < groupsFor count size ↔ size < count := by
  rw [UInt64.lt_iff_toNat_lt, UInt64.lt_iff_toNat_lt]
  show 1 < _ ↔ _
  rw [← Nat.not_le, groupsFor_le_iff hsize, Nat.one_mul, Nat.not_le]

theorem groupsFor_ne_zero {count size : UInt64} (hsize : size ≠ 0) (hcount : count ≠ 0) :
    groupsFor count size ≠ 0 := by
  intro hzero
  have hnone : (groupsFor count size).toNat ≤ 0 := by
    rw [hzero]
    exact Nat.le_refl 0
  rw [groupsFor_le_iff hsize, Nat.zero_mul, Nat.le_zero] at hnone
  exact hcount (UInt64.toNat_inj.mp hnone)

theorem groupsFor_mono {fewer count size : UInt64} (hsize : size ≠ 0) (hle : fewer ≤ count) :
    groupsFor fewer size ≤ groupsFor count size := by
  rw [UInt64.le_iff_toNat_le, groupsFor_le_iff hsize]
  rw [UInt64.le_iff_toNat_le] at hle
  exact Nat.le_trans hle ((groupsFor_le_iff hsize).mp (Nat.le_refl _))

/-! ### The way up -/

section Up

variable {width elementBytes : UInt32} {elementCount maximumGroupCount : UInt64}

theorem appendStage_eq {builder next : PrefixBuilder} {stage : RangeStagePlan}
    (h : builder.appendStage stage = some next) :
    next = { builder with stages := builder.stages ++ [stage] } := by
  rw [PrefixBuilder.appendStage] at h
  split_ifs at h
  injection h with h
  exact h.symm

theorem appendTemporary_eq {builder next : PrefixBuilder} {temporary : RangeTempReq}
    (h : builder.appendTemporary temporary = some next) :
    next = { builder with temporaries := builder.temporaries ++ [temporary] } := by
  rw [PrefixBuilder.appendTemporary] at h
  split_ifs at h
  injection h with h
  exact h.symm

/-- **The way up appends the stages and the totals of its levels.** -/
theorem prefixUp_eq {slots level : Nat} {builder built : PrefixBuilder}
    {summaries places : List Nat} {levels : Nat}
    (hstages : builder.stages = (List.range level).map (upStage width elementCount))
    (htemporaries : builder.temporaries =
      (List.range level).map fun below => summary width elementBytes elementCount below below)
    (hsummaries : summaries = List.range level)
    (hbelow : ∀ below, below < level → levelCount width elementCount (below + 1) ≠ 1)
    (hfits : ∀ below, below < level → levelCount width elementCount (below + 1) ≠ 0 ∧
      levelCount width elementCount (below + 1) ≤ maximumGroupCount)
    (h : prefixUp width elementBytes maximumGroupCount slots level
      (levelCount width elementCount level) builder summaries = some (built, places, levels)) :
    built.stages = (List.range levels).map (upStage width elementCount) ∧
      built.temporaries = (List.range (levels - 1)).map
        (fun below => summary width elementBytes elementCount below below) ∧
      places = List.range (levels - 1) ∧ 0 < levels ∧ levels ≤ level + slots ∧
      levelCount width elementCount levels = 1 ∧
      (∀ below, below < levels → levelCount width elementCount below ≠ 1 ∨ below = 0) ∧
      ∀ below, below < levels → levelCount width elementCount (below + 1) ≠ 0 ∧
        levelCount width elementCount (below + 1) ≤ maximumGroupCount := by
  induction slots generalizing level builder summaries with
  | zero => cases h
  | succ slots ih =>
      rw [prefixUp] at h
      rw [show groupsFor (levelCount width elementCount level) width.toUInt64 =
        levelCount width elementCount (level + 1) from rfl] at h
      by_cases hlimit : levelCount width elementCount (level + 1) = 0 ∨
          levelCount width elementCount (level + 1) > maximumGroupCount
      · rw [if_pos hlimit] at h
        cases h
      rw [if_neg hlimit] at h
      rw [not_or, gt_iff_lt, UInt64.not_lt] at hlimit
      obtain ⟨staged, hstaged, h⟩ := Option.bind_eq_some_iff.mp h
      have hstagedEq := appendStage_eq hstaged
      have hstagedStages : staged.stages =
          (List.range (level + 1)).map (upStage width elementCount) := by
        rw [hstagedEq, List.range_succ, List.map_append, hstages]
        rfl
      have hfitsNext : ∀ below, below < level + 1 →
          levelCount width elementCount (below + 1) ≠ 0 ∧
            levelCount width elementCount (below + 1) ≤ maximumGroupCount := by
        intro below hlt
        rcases Nat.lt_succ_iff_lt_or_eq.mp hlt with hold | rfl
        · exact hfits below hold
        · exact hlimit
      by_cases hone : levelCount width elementCount (level + 1) = 1
      · rw [if_pos hone] at h
        injection h with h
        injection h with hbuilt h
        injection h with hplaces hlevels
        subst hbuilt hplaces hlevels
        refine ⟨hstagedStages, ?_, hsummaries, Nat.succ_pos level, by omega, hone, ?_, hfitsNext⟩
        · rw [hstagedEq]
          exact htemporaries
        · intro below hlt
          cases below with
          | zero => exact Or.inr rfl
          | succ below => exact Or.inl (hbelow below (by omega))
      · rw [if_neg hone] at h
        by_cases hmul : checkedMul (levelCount width elementCount (level + 1))
            elementBytes.toUInt64 = false
        · rw [if_pos hmul] at h
          cases h
        rw [if_neg hmul] at h
        obtain ⟨totalled, htotalled, h⟩ := Option.bind_eq_some_iff.mp h
        have htotalledEq := appendTemporary_eq htotalled
        have htotals : totalled.temporaries = (List.range (level + 1)).map
            fun below => summary width elementBytes elementCount below below := by
          rw [htotalledEq, List.range_succ, List.map_append, hstagedEq]
          show builder.temporaries ++ _ = _
          rw [htemporaries]
          rfl
        have hplace : totalled.temporaries.length - 1 = level := by
          rw [htotals, List.length_map, List.length_range, Nat.add_sub_cancel]
        rw [hplace] at h
        have htotalledStages : totalled.stages =
            (List.range (level + 1)).map (upStage width elementCount) := by
          rw [htotalledEq]
          exact hstagedStages
        have hsummariesNext : summaries ++ [level] = List.range (level + 1) := by
          rw [hsummaries, List.range_succ]
        have hbelowNext : ∀ below, below < level + 1 →
            levelCount width elementCount (below + 1) ≠ 1 := by
          intro below hlt
          rcases Nat.lt_succ_iff_lt_or_eq.mp hlt with hold | rfl
          · exact hbelow below hold
          · exact hone
        obtain ⟨h1, h2, h3, h4, h5, h6⟩ :=
          ih htotalledStages htotals hsummariesNext hbelowNext hfitsNext h
        exact ⟨h1, h2, h3, h4, by omega, h6⟩

/-- A greater limit builds the same way up. -/
theorem prefixUp_mono {greater : UInt64} (hle : maximumGroupCount ≤ greater) {slots level : Nat}
    {values : UInt64} {builder : PrefixBuilder} {summaries : List Nat}
    {result : PrefixBuilder × List Nat × Nat}
    (h : prefixUp width elementBytes maximumGroupCount slots level values builder summaries =
      some result) :
    prefixUp width elementBytes greater slots level values builder summaries = some result := by
  induction slots generalizing level values builder summaries with
  | zero => cases h
  | succ slots ih =>
      rw [prefixUp] at h ⊢
      by_cases hgroups : groupsFor values width.toUInt64 = 0 ∨
          groupsFor values width.toUInt64 > maximumGroupCount
      · rw [if_pos hgroups] at h
        cases h
      rw [if_neg hgroups] at h
      have hgreater : ¬ (groupsFor values width.toUInt64 = 0 ∨
          groupsFor values width.toUInt64 > greater) := by
        rw [not_or, gt_iff_lt, UInt64.not_lt] at hgroups ⊢
        exact ⟨hgroups.1, UInt64.le_trans hgroups.2 hle⟩
      rw [if_neg hgreater]
      obtain ⟨staged, hstaged, h⟩ := Option.bind_eq_some_iff.mp h
      refine Option.bind_eq_some_iff.mpr ⟨staged, hstaged, ?_⟩
      by_cases hone : groupsFor values width.toUInt64 = 1
      · rw [if_pos hone] at h ⊢
        exact h
      · rw [if_neg hone] at h ⊢
        by_cases hmul : checkedMul (groupsFor values width.toUInt64) elementBytes.toUInt64 = false
        · rw [if_pos hmul] at h
          cases h
        rw [if_neg hmul] at h ⊢
        obtain ⟨totalled, htotalled, h⟩ := Option.bind_eq_some_iff.mp h
        exact Option.bind_eq_some_iff.mpr ⟨totalled, htotalled, ih h⟩

end Up

/-! ### The way down -/

section Down

variable {width elementBytes : UInt32} {elementCount : UInt64} {levels : Nat}

/-- The last stage of the totals of a level, when the levels from `child` on have been done. -/
def lastStageFrom (levels child level : Nat) : Nat :=
  if child ≤ level then 2 * levels - 2 - level else level

theorem prefixDown_eq {child : Nat} {builder built : PrefixBuilder}
    (hchild : child ≤ levels - 1)
    (hstages : builder.stages = (List.range levels).map (upStage width elementCount) ++
      (List.range (levels - 1 - child)).map
        fun turn => fixupStage width elementCount (levels - 2 - turn))
    (htemporaries : builder.temporaries = (List.range (levels - 1)).map fun level =>
      summary width elementBytes elementCount level (lastStageFrom levels child level))
    (h : prefixDown width levels (List.range (levels - 1)) child builder = some built) :
    built.stages = (List.range levels).map (upStage width elementCount) ++
        (List.range (levels - 1)).map
          (fun turn => fixupStage width elementCount (levels - 2 - turn)) ∧
      built.temporaries = (List.range (levels - 1)).map fun level =>
        summary width elementBytes elementCount level (2 * levels - 2 - level) := by
  induction child generalizing builder with
  | zero =>
      injection h with h
      subst h
      refine ⟨hstages, ?_⟩
      rw [htemporaries]
      apply List.map_congr_left
      intro level _
      rw [lastStageFrom, if_pos (Nat.zero_le level)]
  | succ child ih =>
      rw [prefixDown] at h
      obtain ⟨childStage, hchildStage, h⟩ := Option.bind_eq_some_iff.mp h
      obtain ⟨place, hplace, h⟩ := Option.bind_eq_some_iff.mp h
      obtain ⟨staged, hstaged, h⟩ := Option.bind_eq_some_iff.mp h
      have hplaceEq : place = child := by
        rw [List.getElem?_range (by omega)] at hplace
        injection hplace with hplace
        exact hplace.symm
      have hup : childStage = upStage width elementCount child := by
        rw [hstages, List.getElem?_append_left (by rw [List.length_map, List.length_range]; omega),
          List.getElem?_map, List.getElem?_range (by omega)] at hchildStage
        injection hchildStage with hchildStage
        exact hchildStage.symm
      have hstagedEq := appendStage_eq hstaged
      rw [hplaceEq] at h
      refine ih (by omega) ?_ ?_ h
      · show staged.stages = _
        rw [hstagedEq, show levels - 1 - child = levels - 1 - (child + 1) + 1 by omega,
          List.range_succ, List.map_append, ← List.append_assoc, ← hstages, hup,
          List.map_singleton, show levels - 2 - (levels - 1 - (child + 1)) = child by omega]
        rfl
      · show staged.temporaries.modify child _ = _
        rw [hstagedEq]
        show builder.temporaries.modify child _ = _
        rw [htemporaries]
        apply List.ext_getElem?
        intro level
        rw [List.getElem?_modify, List.getElem?_map, List.getElem?_map]
        by_cases hlevel : level < levels - 1
        · rw [List.getElem?_range hlevel, Option.map_some, Option.map_some]
          show some (if child = level then _ else _) = _
          by_cases hsame : child = level
          · rw [if_pos hsame, hsame]
            show some _ = some _
            rw [summary, summary, lastStageFrom, lastStageFrom, if_pos (Nat.le_refl level)]
          · rw [if_neg hsame]
            show some _ = some _
            rw [lastStageFrom, lastStageFrom]
            by_cases hle : child ≤ level
            · rw [if_pos (by omega), if_pos hle]
            · rw [if_neg (by omega), if_neg hle]
        · rw [List.getElem?_eq_none (by rw [List.length_range]; omega)]
          rfl

end Down

/-! ### Trees -/

/-- The stages of a hierarchy with some levels. -/
def treeStages (width : UInt32) (elementCount : UInt64) (levels : Nat) : List RangeStagePlan :=
  (List.range levels).map (upStage width elementCount) ++
    (List.range (levels - 1)).map fun turn => fixupStage width elementCount (levels - 2 - turn)

/-- The totals of a hierarchy with some levels. -/
def treeTemporaries (width elementBytes : UInt32) (elementCount : UInt64) (levels : Nat) :
    List RangeTempReq :=
  (List.range (levels - 1)).map fun level =>
    summary width elementBytes elementCount level (2 * levels - 2 - level)

variable {width elementBytes : UInt32} {elementCount maximumGroupCount : UInt64}

/-- **What a tree is.** -/
theorem planRangePrefixTree_eq {tree : PrefixBuilder}
    (h : planRangePrefixTree elementCount width elementBytes maximumGroupCount = some tree) :
    ∃ levels, Levels width elementCount maximumGroupCount levels ∧
      tree.stages = treeStages width elementCount levels ∧
      tree.temporaries = treeTemporaries width elementBytes elementCount levels := by
  rw [planRangePrefixTree] at h
  split_ifs at h
  obtain ⟨⟨built, places, levels⟩, hup, h⟩ := Option.bind_eq_some_iff.mp h
  obtain ⟨hstages, htemporaries, hplaces, hpos, hbound, htop, hbelow, hfits⟩ :=
    @prefixUp_eq width elementBytes elementCount maximumGroupCount kRangeTempCap 0 {} built []
      places levels rfl rfl rfl (fun below hlt => absurd hlt (Nat.not_lt_zero below))
      (fun below hlt => absurd hlt (Nat.not_lt_zero below)) hup
  dsimp only at h
  rw [hplaces] at h
  have hnone : built.stages = (List.range levels).map (upStage width elementCount) ++
      (List.range (levels - 1 - (levels - 1))).map
        fun turn => fixupStage width elementCount (levels - 2 - turn) := by
    rw [hstages, Nat.sub_self, List.range_zero, List.map_nil, List.append_nil]
  have hfresh : built.temporaries = (List.range (levels - 1)).map fun level =>
      summary width elementBytes elementCount level (lastStageFrom levels (levels - 1) level) := by
    rw [htemporaries]
    apply List.map_congr_left
    intro level hlevel
    rw [List.mem_range] at hlevel
    rw [lastStageFrom, if_neg (by omega)]
  obtain ⟨hdown, htotals⟩ := prefixDown_eq (Nat.le_refl _) hnone hfresh h
  exact ⟨levels, ⟨hpos, by omega, htop, hbelow, hfits⟩, hdown, htotals⟩

/-- A greater limit on groups builds the same tree. -/
theorem planRangePrefixTree_mono {greater : UInt64} (hle : maximumGroupCount ≤ greater)
    {tree : PrefixBuilder}
    (h : planRangePrefixTree elementCount width elementBytes maximumGroupCount = some tree) :
    planRangePrefixTree elementCount width elementBytes greater = some tree := by
  rw [planRangePrefixTree] at h ⊢
  split_ifs at h with hguard
  have hzero : ¬ maximumGroupCount = 0 := fun hzero => hguard (Or.inr (Or.inr (Or.inr hzero)))
  have hgreater : ¬ (elementCount = 0 ∨ validWidth width = false ∨
      (elementBytes ≠ 4 ∧ elementBytes ≠ 8) ∨ greater = 0) := by
    rintro (hcount | hwidth | hbytes | hgreater)
    · exact hguard (Or.inl hcount)
    · exact hguard (Or.inr (Or.inl hwidth))
    · exact hguard (Or.inr (Or.inr (Or.inl hbytes)))
    · rw [hgreater] at hle
      exact hzero (UInt64.le_zero_iff.mp hle)
  rw [if_neg hgreater]
  obtain ⟨up, hup, h⟩ := Option.bind_eq_some_iff.mp h
  exact Option.bind_eq_some_iff.mpr ⟨up, prefixUp_mono hle hup, h⟩

end RunD.Range
