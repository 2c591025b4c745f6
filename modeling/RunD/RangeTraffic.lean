/-
The boundary traffic of a shape.

The plan needs to know how many windows reach over either end of the input and
how many samples the windows have inside it.  The source computes these with
four closed formulas in 128-bit words.  Here the numbers are counted over all
outputs and all places of their windows, and the formulas are shown to be the
counts for every shape that `affine` accepts, without any overflow on the way
(`affineBoundaryTraffic_counts`).
-/
import RunD.AffineCount
import RunD.RangeEvaluation

namespace RunD.Range

/-! ### Words of 128 bits -/

@[simp] theorem wide_toNat (value : UInt64) : (wide value).toNat = value.toNat := by
  rw [wide, BitVec.toNat_setWidth]
  exact Nat.mod_eq_of_lt (Nat.lt_trans value.toNat_lt (by decide))

theorem addWide_of_fits {left right : Wide} (h : left.toNat + right.toNat < 2 ^ 128) :
    ∃ sum, addWide left right = some sum ∧ sum.toNat = left.toNat + right.toNat := by
  refine ⟨left + right, ?_, ?_⟩
  · rw [addWide, if_neg]
    have hle : right ≤ BitVec.allOnes 128 := by
      rw [BitVec.le_def, BitVec.toNat_allOnes]
      exact Nat.le_sub_one_of_lt right.isLt
    rw [gt_iff_lt, BitVec.lt_def, BitVec.toNat_sub_of_le hle, BitVec.toNat_allOnes]
    omega
  · rw [BitVec.toNat_add, Nat.mod_eq_of_lt h]

theorem multiplyWide_of_fits {left right : Wide} (h : left.toNat * right.toNat < 2 ^ 128) :
    ∃ product, multiplyWide left right = some product ∧
      product.toNat = left.toNat * right.toNat := by
  refine ⟨left * right, ?_, ?_⟩
  · rw [multiplyWide, if_neg]
    rintro ⟨hzero, hbig⟩
    have hpos : 0 < right.toNat :=
      Nat.pos_of_ne_zero fun hnone => hzero (BitVec.eq_of_toNat_eq hnone)
    rw [gt_iff_lt, BitVec.lt_def, BitVec.toNat_udiv, BitVec.toNat_allOnes,
      Nat.div_lt_iff_lt_mul hpos] at hbig
    omega
  · rw [BitVec.toNat_mul, Nat.mod_eq_of_lt h]

/-- A product of two 64-bit words fits. -/
theorem mul_fits (left right : UInt64) : left.toNat * right.toNat < 2 ^ 128 :=
  calc left.toNat * right.toNat < 2 ^ 64 * 2 ^ 64 :=
        Nat.mul_lt_mul'' left.toNat_lt right.toNat_lt
    _ = 2 ^ 128 := by norm_num

/-! ### The parts of the formulas -/

/-- `left_affected`. -/
def leftAffected (shape : RangeShape) : UInt64 :=
  min shape.outputCount (groupsFor shape.padding shape.stride)

/-- `right_first`. -/
def rightFirst (shape : RangeShape) : UInt64 :=
  if shape.rightExtent ≥ shape.inputCount then 0
  else min shape.outputCount (groupsFor (shape.inputCount - shape.rightExtent) shape.stride)

/-- `right_affected`. -/
def rightAffected (shape : RangeShape) : UInt64 := shape.outputCount - rightFirst shape

/-- `first_positive_left`. -/
def firstPositiveLeft (shape : RangeShape) : UInt64 :=
  min shape.outputCount (shape.padding / shape.stride + 1)

/-- `first_right_missing`. -/
def firstRightMissing (shape : RangeShape) : Wide :=
  if rightAffected shape = 0 then 0
  else wide (rightFirst shape) * wide shape.stride + wide shape.rightExtent + 1 -
    wide shape.inputCount

/-! ### The counts -/

namespace RangeShape

variable (shape : RangeShape)

/-- The index that a place of an output's window stands for. -/
def sample (output place : Nat) : Int :=
  (output * shape.stride.toNat : Nat) - (shape.padding.toNat : Int) + place

/-- The outputs. -/
def outputs : Finset Nat := Finset.range shape.outputCount.toNat

/-- The places of a window. -/
def places : Finset Nat := Finset.range shape.windowSize.toNat

/-- The outputs whose window starts before the input. -/
def startingBefore : Finset Nat := shape.outputs.filter fun output => shape.sample output 0 < 0

/-- The outputs whose window ends after the input. -/
def endingAfter : Finset Nat :=
  shape.outputs.filter fun output =>
    (shape.inputCount.toNat : Int) ≤ shape.sample output (shape.windowSize.toNat - 1)

/-- The outputs whose window starts after index zero. -/
def startingInside : Finset Nat := shape.outputs.filter fun output => 0 < shape.sample output 0

/-- The places of an output's window that lie inside the input. -/
def inside (output : Nat) : Finset Nat :=
  shape.places.filter fun place =>
    0 ≤ shape.sample output place ∧ shape.sample output place < shape.inputCount.toNat

end RangeShape

/-! ### What `affine` lets pass -/

/-- The numbers of an accepted shape. -/
structure Bounded (shape : RangeShape) : Prop where
  input : 0 < shape.inputCount.toNat
  output : 0 < shape.outputCount.toNat
  stride : 0 < shape.stride.toNat
  padding : shape.padding.toNat < shape.windowSize.toNat
  anchor : (shape.outputCount.toNat - 1) * shape.stride.toNat <
    shape.inputCount.toNat + shape.padding.toNat
  anchorFits : (shape.outputCount.toNat - 1) * shape.stride.toNat < 2 ^ 64

theorem toNat_pos_of_ne_zero {x : UInt64} (h : x ≠ 0) : 0 < x.toNat :=
  Nat.pos_of_ne_zero fun hzero => h (UInt64.toNat_inj.mp hzero)

theorem RangeShape.lastAnchor_eq {shape : RangeShape} (h : shape.outputCount ≠ 0) :
    shape.lastAnchor = (shape.outputCount.toNat - 1) * shape.stride.toNat := by
  have hone : (1 : UInt64) ≤ shape.outputCount := by
    rw [UInt64.le_iff_toNat_le]
    exact toNat_pos_of_ne_zero h
  rw [RangeShape.lastAnchor, if_neg h, UInt64.toNat_sub_of_le _ _ hone]
  rfl

theorem RangeShape.bounded {shape : RangeShape} (h : shape.valid = true) : Bounded shape := by
  rw [RangeShape.valid] at h
  simp only [Bool.and_eq_true, bne_iff_ne, decide_eq_true_iff] at h
  obtain ⟨⟨⟨⟨⟨⟨⟨⟨⟨⟨⟨⟨-, hinput⟩, houtput⟩, -⟩, hstride⟩, hpadding⟩, -⟩, hfits⟩, hanchor⟩, -⟩, -⟩,
    -⟩, -⟩ := h
  rw [RangeShape.lastAnchor_eq houtput] at hfits hanchor
  exact ⟨toNat_pos_of_ne_zero hinput, toNat_pos_of_ne_zero houtput, toNat_pos_of_ne_zero hstride,
    UInt64.lt_iff_toNat_lt.mp hpadding, hanchor, hfits⟩

theorem affine_valid {traits : RangeTraits} {boundary : RangeBoundary}
    {inputCount outputCount windowSize stride padding : UInt64} {elementBytes : UInt32}
    {count : RangeCount} {shape : RangeShape}
    (h : RangeShape.affine traits boundary inputCount outputCount windowSize stride padding
      elementBytes count = some shape) : shape.valid = true := by
  rw [RangeShape.affine] at h
  split_ifs at h with hvalid
  cases h
  exact hvalid

namespace Bounded

variable {shape : RangeShape} (h : Bounded shape)

include h

theorem groupsFor_toNat {value : UInt64} :
    (groupsFor value shape.stride).toNat = ceilDiv value.toNat shape.stride.toNat := by
  have hstride : shape.stride ≠ 0 := by
    intro hzero
    have := h.stride
    rw [hzero] at this
    exact Nat.lt_irrefl 0 this
  exact checkedCeil_toNat hstride

theorem rightExtent_toNat :
    shape.rightExtent.toNat = shape.windowSize.toNat - shape.padding.toNat - 1 := by
  have hpadding := h.padding
  have hle : shape.padding ≤ shape.windowSize := UInt64.le_iff_toNat_le.mpr (by omega)
  have hsub := UInt64.toNat_sub_of_le _ _ hle
  have hone : (1 : UInt64) ≤ shape.windowSize - shape.padding := by
    rw [UInt64.le_iff_toNat_le, hsub]
    show 1 ≤ _
    omega
  rw [RangeShape.rightExtent, UInt64.toNat_sub_of_le _ _ hone, hsub]
  rfl

theorem leftAffected_toNat : (leftAffected shape).toNat =
    min shape.outputCount.toNat (ceilDiv shape.padding.toNat shape.stride.toNat) := by
  rw [leftAffected, toNat_min_word, h.groupsFor_toNat]

theorem rightFirst_toNat : (rightFirst shape).toNat = min shape.outputCount.toNat
    (ceilDiv (shape.inputCount.toNat - shape.rightExtent.toNat) shape.stride.toNat) := by
  rw [rightFirst]
  by_cases hwide : shape.rightExtent ≥ shape.inputCount
  · have hle := UInt64.le_iff_toNat_le.mp hwide
    rw [if_pos hwide, Nat.sub_eq_zero_of_le hle, ceilDiv, Nat.zero_div, Nat.zero_mod, if_pos rfl]
    exact (Nat.min_zero _).symm
  · have hlt : shape.rightExtent < shape.inputCount := UInt64.not_le.mp hwide
    have hle : shape.rightExtent ≤ shape.inputCount := UInt64.le_of_lt hlt
    rw [if_neg hwide, toNat_min_word, h.groupsFor_toNat, UInt64.toNat_sub_of_le _ _ hle]

theorem rightAffected_toNat :
    (rightAffected shape).toNat = shape.outputCount.toNat - (rightFirst shape).toNat := by
  have hfirst := h.rightFirst_toNat
  rw [rightAffected, UInt64.toNat_sub_of_le]
  rw [UInt64.le_iff_toNat_le, hfirst]
  exact Nat.min_le_left _ _

theorem firstPositiveLeft_toNat : (firstPositiveLeft shape).toNat =
    min shape.outputCount.toNat (shape.padding.toNat / shape.stride.toNat + 1) := by
  have hpadding := h.padding
  have hwindow := shape.windowSize.toNat_lt
  have hquotient := Nat.div_le_self shape.padding.toNat shape.stride.toNat
  rw [firstPositiveLeft, toNat_min_word, toNat_add_of_fits, UInt64.toNat_div]
  · rfl
  · rw [UInt64.toNat_div]
    show _ + 1 < _
    omega

/-! ### The formulas are the counts -/

theorem card_startingBefore : shape.startingBefore.card = (leftAffected shape).toNat := by
  rw [h.leftAffected_toNat, ← card_below h.stride, RangeShape.startingBefore, RangeShape.outputs]
  congr 1
  apply Finset.filter_congr
  intro output _
  rw [RangeShape.sample]
  omega

theorem card_endingAfter : shape.endingAfter.card = (rightAffected shape).toNat := by
  have hpadding := h.padding
  rw [h.rightAffected_toNat, h.rightFirst_toNat, ← card_not_below h.stride,
    RangeShape.endingAfter, RangeShape.outputs, h.rightExtent_toNat]
  congr 1
  apply Finset.filter_congr
  intro output _
  rw [RangeShape.sample]
  omega

theorem card_startingInside : shape.startingInside.card =
    (shape.outputCount - firstPositiveLeft shape).toNat := by
  have hfirst := h.firstPositiveLeft_toNat
  -- a window starts after index zero when its anchor reaches the number after the padding
  have hnext : shape.padding.toNat / shape.stride.toNat + 1 =
      ceilDiv (shape.padding.toNat + 1) shape.stride.toNat := by
    apply Nat.le_antisymm
    · apply (lt_ceilDiv_iff h.stride).mpr
      exact Nat.lt_succ_of_le (Nat.div_mul_le_self _ _)
    · by_contra hmore
      have hreach := (lt_ceilDiv_iff h.stride).mp (Nat.not_le.mp hmore)
      have hsplit := Nat.div_add_mod shape.padding.toNat shape.stride.toNat
      have hrest := Nat.mod_lt shape.padding.toNat h.stride
      rw [Nat.add_mul, Nat.one_mul, Nat.mul_comm] at hreach
      omega
  rw [UInt64.toNat_sub_of_le, hfirst, hnext, ← card_not_below h.stride, RangeShape.startingInside,
    RangeShape.outputs]
  · congr 1
    apply Finset.filter_congr
    intro output _
    rw [RangeShape.sample]
    omega
  · rw [UInt64.le_iff_toNat_le, hfirst]
    exact Nat.min_le_left _ _

/-! ### The samples -/

/-- What a window lacks on either side and what it has inside make up the window. -/
theorem card_inside_add {output : Nat} (houtput : output < shape.outputCount.toNat) :
    (shape.inside output).card + (shape.padding.toNat - output * shape.stride.toNat) +
        (output * shape.stride.toNat + (shape.rightExtent.toNat + 1) - shape.inputCount.toNat) =
      shape.windowSize.toNat ∧ 0 < (shape.inside output).card := by
  have hpadding := h.padding
  have hle : output * shape.stride.toNat ≤ (shape.outputCount.toNat - 1) * shape.stride.toNat :=
    Nat.mul_le_mul_right _ (by omega)
  have hanchor := h.anchor
  obtain ⟨hsum, hpos⟩ := card_inside hpadding
    (show output * shape.stride.toNat < shape.inputCount.toNat + shape.padding.toNat by omega)
  have hsame : shape.inside output = (Finset.range shape.windowSize.toNat).filter fun place =>
      shape.padding.toNat ≤ output * shape.stride.toNat + place ∧
        output * shape.stride.toNat + place < shape.inputCount.toNat + shape.padding.toNat := by
    apply Finset.filter_congr
    intro place _
    rw [RangeShape.sample]
    omega
  rw [hsame, h.rightExtent_toNat]
  refine ⟨?_, hpos h.input⟩
  omega

/-- What the windows lack on the left. -/
theorem sum_leftMissing :
    ∑ output ∈ shape.outputs, (shape.padding.toNat - output * shape.stride.toNat) +
        triangle (leftAffected shape).toNat * shape.stride.toNat =
      (leftAffected shape).toNat * shape.padding.toNat := by
  rw [h.leftAffected_toNat]
  exact sum_lack h.stride

/-- What the windows lack on the right. -/
theorem sum_rightMissing :
    ∑ output ∈ shape.outputs,
        (output * shape.stride.toNat + (shape.rightExtent.toNat + 1) - shape.inputCount.toNat) =
      (rightAffected shape).toNat * ((rightFirst shape).toNat * shape.stride.toNat +
        (shape.rightExtent.toNat + 1) - shape.inputCount.toNat) +
        triangle (rightAffected shape).toNat * shape.stride.toNat := by
  have hfirst := h.rightFirst_toNat
  rw [h.rightAffected_toNat]
  apply sum_excess
  · intro output hlt
    rw [hfirst] at hlt
    have := (lt_ceilDiv_iff h.stride).mp (Nat.lt_min.mp hlt).2
    omega
  · intro hlt
    have hreach : ¬ (rightFirst shape).toNat <
        ceilDiv (shape.inputCount.toNat - shape.rightExtent.toNat) shape.stride.toNat := by
      omega
    rw [lt_ceilDiv_iff h.stride] at hreach
    omega
  · rw [hfirst]
    exact Nat.min_le_left _ _

/-- All places of all windows. -/
theorem sum_places :
    ∑ output ∈ shape.outputs, (shape.inside output).card +
        ∑ output ∈ shape.outputs, (shape.padding.toNat - output * shape.stride.toNat) +
        ∑ output ∈ shape.outputs,
          (output * shape.stride.toNat + (shape.rightExtent.toNat + 1) - shape.inputCount.toNat) =
      shape.outputCount.toNat * shape.windowSize.toNat := by
  rw [← Finset.sum_add_distrib, ← Finset.sum_add_distrib]
  have hcard : shape.outputs.card = shape.outputCount.toNat := Finset.card_range _
  rw [← hcard]
  apply Finset.sum_const_nat
  intro output hmem
  exact (h.card_inside_add (Finset.mem_range.mp hmem)).1

/-- Every window has a sample. -/
theorem sum_inside_pos : 0 < ∑ output ∈ shape.outputs, (shape.inside output).card := by
  apply Finset.sum_pos
  · intro output hmem
    exact (h.card_inside_add (Finset.mem_range.mp hmem)).2
  · exact ⟨0, Finset.mem_range.mpr h.output⟩

/-! ### No overflow -/

omit h in
/-- The pairs among some windows are counted without overflow. -/
theorem pairs_toNat (count : UInt64) :
    (wide count * wide (if count = 0 then 0 else count - 1) / 2).toNat = triangle count.toNat := by
  have hfits := mul_fits count (if count = 0 then 0 else count - 1)
  rw [BitVec.toNat_udiv, BitVec.toNat_mul, wide_toNat, wide_toNat, Nat.mod_eq_of_lt hfits, triangle]
  by_cases hzero : count = 0
  · subst hzero
    rfl
  · have hone : (1 : UInt64) ≤ count := by
      rw [UInt64.le_iff_toNat_le]
      exact toNat_pos_of_ne_zero hzero
    rw [if_neg hzero, UInt64.toNat_sub_of_le _ _ hone]
    rfl

omit h in
theorem anchorSum_of_fits {count stride : UInt64}
    (hfits : triangle count.toNat * stride.toNat < 2 ^ 128) :
    ∃ steps, anchorSum count stride = some steps ∧
      steps.toNat = triangle count.toNat * stride.toNat := by
  have hpairs := pairs_toNat count
  rw [← hpairs, ← wide_toNat stride] at hfits ⊢
  exact multiplyWide_of_fits hfits

/-- The first window that lacks something on the right. -/
theorem firstRightMissing_toNat (hsome : rightAffected shape ≠ 0) :
    (firstRightMissing shape).toNat = (rightFirst shape).toNat * shape.stride.toNat +
      (shape.rightExtent.toNat + 1) - shape.inputCount.toNat := by
  have haffected := toNat_pos_of_ne_zero hsome
  rw [h.rightAffected_toNat] at haffected
  have hfirst := h.rightFirst_toNat
  have hinput := shape.inputCount.toNat_lt
  have hextent := shape.rightExtent.toNat_lt
  have hreach : ¬ (rightFirst shape).toNat <
      ceilDiv (shape.inputCount.toNat - shape.rightExtent.toNat) shape.stride.toNat := by
    omega
  rw [lt_ceilDiv_iff h.stride] at hreach
  have hanchor : (rightFirst shape).toNat * shape.stride.toNat ≤
      (shape.outputCount.toNat - 1) * shape.stride.toNat := Nat.mul_le_mul_right _ (by omega)
  have hfits := h.anchorFits
  have hone : (1 : Wide).toNat = 1 := rfl
  rw [firstRightMissing, if_neg hsome, BitVec.toNat_sub, BitVec.toNat_add, BitVec.toNat_add,
    BitVec.toNat_mul, wide_toNat, wide_toNat, wide_toNat, wide_toNat, hone]
  generalize (rightFirst shape).toNat * shape.stride.toNat = anchor at hreach hanchor ⊢
  omega

theorem rightAffected_mul : (rightAffected shape).toNat * (firstRightMissing shape).toNat =
    (rightAffected shape).toNat * ((rightFirst shape).toNat * shape.stride.toNat +
      (shape.rightExtent.toNat + 1) - shape.inputCount.toNat) := by
  by_cases hnone : rightAffected shape = 0
  · rw [hnone]
    show 0 * _ = 0 * _
    rw [Nat.zero_mul, Nat.zero_mul]
  · rw [h.firstRightMissing_toNat hnone]

/-- The formulas never leave their 128 bits, and the samples they give are those inside. -/
theorem affineBoundaryTraffic_eq :
    ∃ samples : Wide, samples.toNat = ∑ output ∈ shape.outputs, (shape.inside output).card ∧
      affineBoundaryTraffic shape = some
        { validSamples := samples
          leftAffected := leftAffected shape
          rightAffected := rightAffected shape
          leftPrefixReads := shape.outputCount - firstPositiveLeft shape } := by
  have hplaces := h.sum_places
  have hleft := h.sum_leftMissing
  have hright := h.sum_rightMissing
  have hinside := h.sum_inside_pos
  rw [← h.rightAffected_mul] at hright
  -- everything that is added up is at most the number of all places
  have hall := mul_fits shape.outputCount shape.windowSize
  have hproduct := mul_fits (leftAffected shape) shape.padding
  have hleftSteps : triangle (leftAffected shape).toNat * shape.stride.toNat < 2 ^ 128 := by omega
  have hrightProduct : (rightAffected shape).toNat * (firstRightMissing shape).toNat < 2 ^ 128 := by
    omega
  have hrightSteps : triangle (rightAffected shape).toNat * shape.stride.toNat < 2 ^ 128 := by omega
  obtain ⟨all, hallSome, hallNat⟩ := multiplyWide_of_fits
    (show (wide shape.outputCount).toNat * (wide shape.windowSize).toNat < 2 ^ 128 by
      rw [wide_toNat, wide_toNat]; exact hall)
  obtain ⟨padded, hpaddedSome, hpaddedNat⟩ := multiplyWide_of_fits
    (show (wide (leftAffected shape)).toNat * (wide shape.padding).toNat < 2 ^ 128 by
      rw [wide_toNat, wide_toNat]; exact hproduct)
  obtain ⟨leftSteps, hleftSome, hleftNat⟩ := anchorSum_of_fits hleftSteps
  obtain ⟨first, hfirstSome, hfirstNat⟩ := multiplyWide_of_fits
    (show (wide (rightAffected shape)).toNat * (firstRightMissing shape).toNat < 2 ^ 128 by
      rw [wide_toNat]; exact hrightProduct)
  obtain ⟨rightSteps, hrightSome, hrightNat⟩ := anchorSum_of_fits hrightSteps
  rw [wide_toNat, wide_toNat] at hallNat hpaddedNat
  rw [wide_toNat] at hfirstNat
  have hkeep : (padded - leftSteps).toNat = padded.toNat - leftSteps.toNat :=
    BitVec.toNat_sub_of_le (BitVec.le_def.mpr (by omega))
  obtain ⟨right, hrightSum, hrightSumNat⟩ := @addWide_of_fits first rightSteps (by omega)
  obtain ⟨missing, hmissing, hmissingNat⟩ := @addWide_of_fits (padded - leftSteps) right (by omega)
  have hsamples : (all - missing).toNat = all.toNat - missing.toNat :=
    BitVec.toNat_sub_of_le (BitVec.le_def.mpr (by omega))
  refine ⟨all - missing, by omega, ?_⟩
  have hordered : ¬ padded < leftSteps := by
    rw [BitVec.lt_def]
    omega
  have hfewer : ¬ missing ≥ all := by
    rw [ge_iff_le, BitVec.le_def]
    omega
  show (multiplyWide (wide shape.outputCount) (wide shape.windowSize)).bind _ = _
  rw [hallSome, Option.bind_some]
  show (multiplyWide (wide (leftAffected shape)) (wide shape.padding)).bind _ = _
  rw [hpaddedSome, Option.bind_some]
  show (anchorSum (leftAffected shape) shape.stride).bind _ = _
  rw [hleftSome, Option.bind_some, if_neg hordered]
  show (multiplyWide (wide (rightAffected shape)) (firstRightMissing shape)).bind _ = _
  rw [hfirstSome, Option.bind_some]
  show (anchorSum (rightAffected shape) shape.stride).bind _ = _
  rw [hrightSome, Option.bind_some]
  show (addWide first rightSteps).bind _ = _
  rw [hrightSum, Option.bind_some]
  show (addWide (padded - leftSteps) right).bind _ = _
  rw [hmissing, Option.bind_some, if_neg hfewer]
  rfl

end Bounded

/-- **The boundary traffic of an accepted shape is what its windows amount to**: the formulas give
a value, and the value has the outputs that start before the input, end after it and start after
index zero, and the places of all windows that lie inside. -/
theorem affineBoundaryTraffic_counts (traits : RangeTraits) (boundary : RangeBoundary)
    (inputCount outputCount windowSize stride padding : UInt64) (elementBytes : UInt32)
    (count : RangeCount) (shape : RangeShape)
    (h : RangeShape.affine traits boundary inputCount outputCount windowSize stride padding
      elementBytes count = some shape) :
    ∃ traffic, affineBoundaryTraffic shape = some traffic ∧
      traffic.leftAffected.toNat = shape.startingBefore.card ∧
      traffic.rightAffected.toNat = shape.endingAfter.card ∧
      traffic.leftPrefixReads.toNat = shape.startingInside.card ∧
      traffic.validSamples.toNat = ∑ output ∈ shape.outputs, (shape.inside output).card := by
  have hbounded := RangeShape.bounded (affine_valid h)
  obtain ⟨samples, hsamples, htraffic⟩ := hbounded.affineBoundaryTraffic_eq
  refine ⟨_, htraffic, ?_, ?_, ?_, hsamples⟩
  · exact hbounded.card_startingBefore.symm
  · exact hbounded.card_endingAfter.symm
  · exact hbounded.card_startingInside.symm

/-- Four windows of five places over an input of six, from two places before it. -/
theorem affineBoundaryTraffic_counts_four :
    ∃ traffic, affineBoundaryTraffic
        ⟨⟨.sum, .u32, .moduloWidth⟩, .clip, 6, 4, 5, 2, 2, 4, .descriptor⟩ = some traffic ∧
      traffic.leftAffected.toNat = (RangeShape.startingBefore
        ⟨⟨.sum, .u32, .moduloWidth⟩, .clip, 6, 4, 5, 2, 2, 4, .descriptor⟩).card ∧
      traffic.rightAffected.toNat = (RangeShape.endingAfter
        ⟨⟨.sum, .u32, .moduloWidth⟩, .clip, 6, 4, 5, 2, 2, 4, .descriptor⟩).card ∧
      traffic.leftPrefixReads.toNat = (RangeShape.startingInside
        ⟨⟨.sum, .u32, .moduloWidth⟩, .clip, 6, 4, 5, 2, 2, 4, .descriptor⟩).card ∧
      traffic.validSamples.toNat =
        ∑ output ∈ RangeShape.outputs
            ⟨⟨.sum, .u32, .moduloWidth⟩, .clip, 6, 4, 5, 2, 2, 4, .descriptor⟩,
          (RangeShape.inside
            ⟨⟨.sum, .u32, .moduloWidth⟩, .clip, 6, 4, 5, 2, 2, 4, .descriptor⟩ output).card :=
  affineBoundaryTraffic_counts ⟨.sum, .u32, .moduloWidth⟩ .clip 6 4 5 2 2 4 .descriptor _
    (by decide)

end RunD.Range
