/-
Hierarchies over fewer elements.

A hierarchy is built whenever its levels end within the slots and its totals
are words (`planRangePrefixTree_of_levels`).  Over fewer elements every level
has fewer values, so a hierarchy that is built once is built for every smaller
count, with no more levels (`planRangePrefixTree_fewer`).
-/
import RunD.RangeSelected

namespace RunD.Range

section Counted

variable {width elementBytes : UInt32} {fewer elementCount maximumGroupCount : UInt64}

/-! ### Levels of fewer elements -/

theorem levelCount_mono (hwidth : width.toUInt64 ≠ 0) (hle : fewer ≤ elementCount) (level : Nat) :
    levelCount width fewer level ≤ levelCount width elementCount level := by
  induction level with
  | zero => exact hle
  | succ level ih => exact groupsFor_mono hwidth ih

theorem levelCount_ne_zero (hwidth : width.toUInt64 ≠ 0) (hcount : elementCount ≠ 0)
    (level : Nat) : levelCount width elementCount level ≠ 0 := by
  induction level with
  | zero => exact hcount
  | succ level ih => exact groupsFor_ne_zero hwidth ih

/-- Over no elements no level has values. -/
theorem levelCount_zero (hwidth : width.toUInt64 ≠ 0) (level : Nat) :
    levelCount width 0 level = 0 := by
  induction level with
  | zero => rfl
  | succ level ih =>
      rw [levelCount, ih]
      have hzero : (groupsFor 0 width.toUInt64).toNat ≤ 0 := by
        rw [groupsFor_le_iff hwidth]
        exact Nat.zero_le _
      exact UInt64.toNat_inj.mp (Nat.le_zero.mp hzero)

theorem eq_one_of_le {value : UInt64} (hne : value ≠ 0) (hle : value ≤ 1) : value = 1 := by
  apply UInt64.toNat_inj.mp
  have hpos : value.toNat ≠ 0 := fun hz => hne (UInt64.toNat_inj.mp hz)
  have hone : value.toNat ≤ 1 := UInt64.le_iff_toNat_le.mp hle
  show value.toNat = 1
  omega

theorem Levels.ofFewer (hwidth : width.toUInt64 ≠ 0) {levels : Nat}
    (hlevels : Levels width elementCount maximumGroupCount levels) (hne : fewer ≠ 0)
    (hle : fewer ≤ elementCount) :
    ∃ small ≤ levels, Levels width fewer maximumGroupCount small := by
  have htop : levelCount width fewer levels = 1 := by
    have hmono := levelCount_mono hwidth hle levels
    rw [hlevels.top] at hmono
    exact eq_one_of_le (levelCount_ne_zero hwidth hne levels) hmono
  have hex : ∃ small, 0 < small ∧ levelCount width fewer small = 1 := ⟨levels, hlevels.pos, htop⟩
  have hleast := Nat.find_spec hex
  have hsmall : Nat.find hex ≤ levels := Nat.find_min' hex ⟨hlevels.pos, htop⟩
  refine ⟨Nat.find hex, hsmall, ⟨hleast.1, Nat.le_trans hsmall hlevels.bound, hleast.2, ?_, ?_⟩⟩
  · intro level hlt
    rcases Nat.eq_zero_or_pos level with hzero | hpos
    · exact Or.inr hzero
    · exact Or.inl fun hone => Nat.find_min hex hlt ⟨hpos, hone⟩
  · intro level hlt
    exact ⟨levelCount_ne_zero hwidth hne (level + 1),
      UInt64.le_trans (levelCount_mono hwidth hle (level + 1))
        (hlevels.fits level (Nat.lt_of_lt_of_le hlt hsmall)).2⟩

/-- The levels of a hierarchy are determined. -/
theorem Levels.unique {other : UInt64} {levels others : Nat}
    (hlevels : Levels width elementCount maximumGroupCount levels)
    (hothers : Levels width elementCount other others) : levels = others := by
  rcases Nat.lt_trichotomy levels others with hlt | heq | hgt
  · rcases hothers.below levels hlt with hne | hzero
    · exact absurd hlevels.top hne
    · exact absurd hlevels.pos (by omega)
  · exact heq
  · rcases hlevels.below others hgt with hne | hzero
    · exact absurd hothers.top hne
    · exact absurd hothers.pos (by omega)

/-! ### Hierarchies that are built -/

/-- The totals of the levels fit words. -/
def Totalled (width elementBytes : UInt32) (elementCount : UInt64) (levels : Nat) : Prop :=
  ∀ level, level + 1 < levels →
    checkedMul (levelCount width elementCount (level + 1)) elementBytes.toUInt64 = true

theorem appendStage_some {builder : PrefixBuilder} {stage : RangeStagePlan}
    (hroom : builder.stages.length < kRangeStageCap) (hgroups : stage.groups ≠ 0) :
    builder.appendStage stage = some { builder with stages := builder.stages ++ [stage] } := by
  rw [PrefixBuilder.appendStage, if_neg]
  rintro (hfull | hzero)
  · omega
  · exact hgroups hzero

theorem appendTemporary_some {builder : PrefixBuilder} {temporary : RangeTempReq}
    (hroom : builder.temporaries.length < kRangeTempCap) (hbytes : temporary.bytes ≠ 0)
    (halignment : temporary.alignment ≠ 0)
    (hspan : temporary.firstStage ≤ temporary.lastStage) :
    builder.appendTemporary temporary =
      some { builder with temporaries := builder.temporaries ++ [temporary] } := by
  rw [PrefixBuilder.appendTemporary, if_neg]
  rintro (hfull | hzero | hzero | hlate)
  · omega
  · exact hbytes hzero
  · exact halignment hzero
  · exact absurd hspan (UInt8.not_le.mpr hlate)

theorem bytes_ne_zero {values bytes : UInt64} (hvalues : values ≠ 0) (hbytes : bytes ≠ 0)
    (hfits : checkedMul values bytes = true) : values * bytes ≠ 0 := by
  intro hzero
  have hnat := congrArg UInt64.toNat hzero
  rw [toNat_mul_of_fits (checkedMul_iff.mp hfits)] at hnat
  rcases Nat.mul_eq_zero.mp hnat with hnone | hnone
  · exact hvalues (UInt64.toNat_inj.mp hnone)
  · exact hbytes (UInt64.toNat_inj.mp hnone)

theorem prefixUp_some {levels : Nat}
    (hlevels : Levels width elementCount maximumGroupCount levels)
    (hbytes : elementBytes.toUInt64 ≠ 0)
    (htotalled : Totalled width elementBytes elementCount levels) {slots level : Nat}
    {builder : PrefixBuilder} {summaries : List Nat} (hlevel : level < levels)
    (hslots : levels ≤ level + slots) (hstages : builder.stages.length = level)
    (htemporaries : builder.temporaries.length = level) :
    ∃ result, prefixUp width elementBytes maximumGroupCount slots level
      (levelCount width elementCount level) builder summaries = some result := by
  have hcap : kRangeTempCap = 12 := rfl
  have hstageCap : kRangeStageCap = 24 := rfl
  have hbound := hlevels.bound
  induction slots generalizing level builder summaries with
  | zero => omega
  | succ slots ih =>
      rw [prefixUp]
      rw [show groupsFor (levelCount width elementCount level) width.toUInt64 =
        levelCount width elementCount (level + 1) from rfl]
      obtain ⟨hne, hfits⟩ := hlevels.fits level hlevel
      rw [if_neg (not_or.mpr ⟨hne, UInt64.not_lt.mpr hfits⟩),
        appendStage_some (by omega) hne]
      dsimp only [bind, Option.bind]
      by_cases hone : levelCount width elementCount (level + 1) = 1
      · rw [if_pos hone]
        exact ⟨_, rfl⟩
      · have hnext : level + 1 < levels := by
          by_contra hlast
          have hsame : level + 1 = levels := by omega
          rw [hsame] at hone
          exact hone hlevels.top
        have hmul := htotalled level hnext
        have hword : ¬ checkedMul (levelCount width elementCount (level + 1))
            elementBytes.toUInt64 = false := by
          simp [hmul]
        rw [if_neg hone, if_neg hword, appendTemporary_some (by show builder.temporaries.length < _; omega)
            (bytes_ne_zero hne hbytes hmul) hbytes (UInt8.le_refl _)]
        apply ih hnext (by omega)
        · show (builder.stages ++ [_]).length = _
          rw [List.length_append, hstages]
          rfl
        · show (builder.temporaries ++ [_]).length = _
          rw [List.length_append, htemporaries]
          rfl

theorem prefixDown_some {levels : Nat} (hbound : levels ≤ kRangeTempCap) {child : Nat}
    {builder : PrefixBuilder} (hchild : child ≤ levels - 1)
    (hlength : builder.stages.length = levels + (levels - 1 - child))
    (hups : ∀ level, level < levels → ∃ stage, builder.stages[level]? = some stage ∧
      stage.groups ≠ 0) :
    ∃ result, prefixDown width levels (List.range (levels - 1)) child builder = some result := by
  have hcap : kRangeTempCap = 12 := rfl
  have hstageCap : kRangeStageCap = 24 := rfl
  induction child generalizing builder with
  | zero => exact ⟨builder, rfl⟩
  | succ child ih =>
      obtain ⟨childStage, hstage, hgroups⟩ := hups child (by omega)
      rw [prefixDown, hstage, List.getElem?_range (by omega)]
      show ∃ result, (builder.appendStage _ >>= _) = some result
      rw [appendStage_some (show builder.stages.length < kRangeStageCap by omega)
        (show (RangeStagePlan.mk .prefixFixup (UInt8.ofNat child) childStage.elementCount
          childStage.groups width).groups ≠ 0 from hgroups)]
      apply ih (by omega)
      · show (builder.stages ++ [_]).length = _
        rw [List.length_append, hlength, List.length_singleton]
        omega
      · intro level hlevel
        obtain ⟨stage, hstage, hne⟩ := hups level hlevel
        refine ⟨stage, ?_, hne⟩
        show (builder.stages ++ [_])[level]? = _
        rw [List.getElem?_append_left (by omega)]
        exact hstage

/-- **A hierarchy is built when its levels end within the slots and its totals fit words.** -/
theorem planRangePrefixTree_of_levels {levels : Nat} (hcount : elementCount ≠ 0)
    (hvalid : validWidth width = true) (hbytes : elementBytes = 4 ∨ elementBytes = 8)
    (hmaximum : maximumGroupCount ≠ 0)
    (hlevels : Levels width elementCount maximumGroupCount levels)
    (htotalled : Totalled width elementBytes elementCount levels) :
    ∃ tree, planRangePrefixTree elementCount width elementBytes maximumGroupCount = some tree := by
  have hne : elementBytes.toUInt64 ≠ 0 := by
    rcases hbytes with hbytes | hbytes
    · rw [hbytes]
      decide
    · rw [hbytes]
      decide
  have hguard : ¬ (elementCount = 0 ∨ validWidth width = false ∨
      (elementBytes ≠ 4 ∧ elementBytes ≠ 8) ∨ maximumGroupCount = 0) := by
    rintro (hzero | hinvalid | ⟨hfour, height⟩ | hzero)
    · exact hcount hzero
    · rw [hvalid] at hinvalid
      cases hinvalid
    · rcases hbytes with hbytes | hbytes
      · exact hfour hbytes
      · exact height hbytes
    · exact hmaximum hzero
  rw [planRangePrefixTree, if_neg hguard]
  obtain ⟨⟨built, places, count⟩, hup⟩ := @prefixUp_some width elementBytes elementCount
    maximumGroupCount levels hlevels hne htotalled kRangeTempCap 0 {} [] hlevels.pos
    (Nat.le_trans hlevels.bound (Nat.le_add_left _ _)) rfl rfl
  obtain ⟨hstages, -, hplaces, hpos, hbound, -, -, hfits⟩ :=
    @prefixUp_eq width elementBytes elementCount maximumGroupCount kRangeTempCap 0 {} built []
      places count rfl rfl rfl (fun below hlt => absurd hlt (Nat.not_lt_zero below))
      (fun below hlt => absurd hlt (Nat.not_lt_zero below)) hup
  have hup' : prefixUp width elementBytes maximumGroupCount kRangeTempCap 0 elementCount {} [] =
      some (built, places, count) := hup
  rw [hup']
  show ∃ tree, prefixDown width count places (count - 1) built = some tree
  rw [hplaces]
  apply prefixDown_some (by omega) (Nat.le_refl _)
  · rw [hstages, List.length_map, List.length_range, Nat.sub_self, Nat.add_zero]
  · intro level hlevel
    refine ⟨upStage width elementCount level, ?_, (hfits level hlevel).1⟩
    rw [hstages, List.getElem?_map, List.getElem?_range hlevel]
    rfl

/-- The totals of a hierarchy that was built fit words. -/
theorem planRangePrefixTree_guard {tree : PrefixBuilder}
    (h : planRangePrefixTree elementCount width elementBytes maximumGroupCount = some tree) :
    elementCount ≠ 0 ∧ validWidth width = true ∧ (elementBytes = 4 ∨ elementBytes = 8) ∧
      maximumGroupCount ≠ 0 := by
  rw [planRangePrefixTree] at h
  split_ifs at h with hguard
  rw [not_or, not_or, not_or] at hguard
  obtain ⟨hcount, hwidth, hbytes, hmaximum⟩ := hguard
  refine ⟨hcount, Bool.eq_true_of_not_eq_false hwidth, ?_, hmaximum⟩
  by_cases hfour : elementBytes = 4
  · exact Or.inl hfour
  · exact Or.inr (Decidable.byContradiction fun height => hbytes ⟨hfour, height⟩)

/-- **A hierarchy that is built is built for every smaller count, with no more levels.** -/
theorem planRangePrefixTree_fewer (hwidth : width.toUInt64 ≠ 0) {levels : Nat}
    {tree : PrefixBuilder}
    (h : planRangePrefixTree elementCount width elementBytes maximumGroupCount = some tree)
    (hlevels : Levels width elementCount maximumGroupCount levels)
    (hfits : checkedMul elementCount elementBytes.toUInt64 = true) (hne : fewer ≠ 0)
    (hle : fewer ≤ elementCount) :
    ∃ small smaller, small ≤ levels ∧ Levels width fewer maximumGroupCount small ∧
      planRangePrefixTree fewer width elementBytes maximumGroupCount = some smaller ∧
      smaller.stages = treeStages width fewer small := by
  obtain ⟨-, hvalid, hbytes, hmaximum⟩ := planRangePrefixTree_guard h
  obtain ⟨small, hsmall, hlevelsSmall⟩ := hlevels.ofFewer hwidth hne hle
  have htotalled : Totalled width elementBytes fewer small := by
    intro level _
    have hcount : levelCount width fewer (level + 1) ≤ elementCount := by
      have hstep : ∀ level, levelCount width elementCount level ≤ elementCount := by
        intro level
        induction level with
        | zero => exact UInt64.le_refl _
        | succ level ih =>
            refine UInt64.le_trans ?_ ih
            rw [UInt64.le_iff_toNat_le]
            refine (groupsFor_le_iff hwidth).mpr ?_
            have hpos : 0 < width.toUInt64.toNat :=
              Nat.pos_of_ne_zero fun hz => hwidth (UInt64.toNat_inj.mp hz)
            exact Nat.le_mul_of_pos_right _ hpos
      exact UInt64.le_trans (levelCount_mono hwidth hle (level + 1)) (hstep (level + 1))
    rw [checkedMul_iff] at hfits ⊢
    exact Nat.lt_of_le_of_lt (Nat.mul_le_mul_right _ (UInt64.le_iff_toNat_le.mp hcount)) hfits
  obtain ⟨smaller, hsmaller⟩ := planRangePrefixTree_of_levels hne hvalid hbytes hmaximum
    hlevelsSmall htotalled
  obtain ⟨others, hothers, hstages, -⟩ := planRangePrefixTree_eq hsmaller
  rw [← hlevelsSmall.unique hothers] at hstages
  exact ⟨small, smaller, hsmall, hlevelsSmall, hsmaller, hstages⟩

end Counted

end RunD.Range
