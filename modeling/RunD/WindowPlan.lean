/-
The plan of a sliding window, and the lanes it runs over.

Output number `j` of a window aggregates `windowSize` positions from
`j * stride - padLeft` on.  What `planWindow` accepts is a shape whose every
window meets the input (`Plan.Shaped`), and replacing both counts by a smaller
resident count leaves such a shape (`Shaped.resident`).
-/
import RunD.CheckedWord
import RunD.ComputeModel

namespace RunD

namespace Window

/-! ### Descriptions and plans -/

/-- `WindowOp`; a byte may also be none of them. -/
inductive Op where
  | sum
  | min
  | max
  | unknown (value : UInt8)
  deriving DecidableEq, Repr

/-- `WindowElement`. -/
inductive Element where
  | u32
  | u64
  | unknown (value : UInt8)
  deriving DecidableEq, Repr

/-- `WindowBoundary`. -/
inductive Boundary where
  | clamp
  | clip
  | unknown (value : UInt8)
  deriving DecidableEq, Repr

/-- `ComputeCountSource`. -/
inductive CountSource where
  | descriptor
  | bufferU32
  | bufferU64
  | unknown (value : UInt8)
  deriving DecidableEq, Repr

/-- `WindowDesc`. -/
structure Desc where
  op : Op := .sum
  element : Element := .u32
  boundary : Boundary := .clamp
  domain : ComputeDomain := .u32
  fixedFormat : ComputeFixedFormat := {}
  countSource : CountSource := .descriptor
  inputCount : UInt64 := 0
  outputCount : UInt64 := 0
  windowSize : UInt64 := 1
  stride : UInt64 := 1
  padLeft : UInt64 := 0
  deriving DecidableEq, Repr

/-- `WindowPlan`. -/
structure Plan where
  op : Op := .sum
  element : Element := .u32
  boundary : Boundary := .clamp
  domain : ComputeDomain := .u32
  fixedFormat : ComputeFixedFormat := {}
  countSource : CountSource := .descriptor
  inputCount : UInt64 := 0
  outputCount : UInt64 := 0
  windowSize : UInt64 := 0
  stride : UInt64 := 0
  padLeft : UInt64 := 0
  elementBytes : UInt64 := 0
  inputBytes : UInt64 := 0
  outputBytes : UInt64 := 0
  tempBytes : UInt64 := 0
  passCount : UInt64 := 0
  ok : Bool := false
  reason : String := "compute_window_invalid"
  deriving DecidableEq, Repr

/-- `WindowResult`. -/
structure Result where
  inputCount : UInt64 := 0
  outputCount : UInt64 := 0
  ok : Bool := false
  reason : String := "compute_window_invalid"
  deriving DecidableEq, Repr

/-! ### Planning -/

def knownOp : Op → Bool
  | .unknown _ => false
  | _ => true

def knownBoundary : Boundary → Bool
  | .unknown _ => false
  | _ => true

def knownCountSource : CountSource → Bool
  | .unknown _ => false
  | _ => true

def elementBytes : Element → UInt64
  | .u32 => 4
  | .u64 => 8
  | .unknown _ => 0

def domainMatches (domain : ComputeDomain) (elementBytes : UInt64) : Bool :=
  match domain with
  | .i32 | .u32 => elementBytes == 4
  | .i64 | .u64 => elementBytes == 8
  | .fixed => elementBytes == 4 || elementBytes == 8
  | .unknown => false

/-- `ComputePrimitiveFixedFormatValid`. -/
def primitiveFixedFormatValid (elementBytes : UInt64) (format : ComputeFixedFormat)
    (approximation : UInt8) : Bool :=
  (elementBytes == 4 || elementBytes == 8) &&
    computeFixedFormatValid (if elementBytes = 4 then .lane32 else .lane64) format &&
    format.approximation == approximation

/-- What every plan takes over from its description. -/
def Desc.copied (desc : Desc) (elementBytes : UInt64) : Plan :=
  { op := desc.op
    element := desc.element
    boundary := desc.boundary
    domain := desc.domain
    fixedFormat := desc.fixedFormat
    countSource := desc.countSource
    inputCount := desc.inputCount
    outputCount := desc.outputCount
    windowSize := desc.windowSize
    stride := desc.stride
    padLeft := desc.padLeft
    elementBytes := elementBytes }

/-- `Reject`. -/
def reject (desc : Desc) (elementBytes : UInt64) (reason : String) : Plan :=
  { desc.copied elementBytes with reason := reason }

/-- `LastWindowIntersects`. -/
def lastWindowIntersects (desc : Desc) : Bool :=
  checkedMul (desc.outputCount - 1) desc.stride &&
    (decide ((desc.outputCount - 1) * desc.stride < desc.padLeft) ||
      decide ((desc.outputCount - 1) * desc.stride - desc.padLeft < desc.inputCount))

/-- `PlanWindow`. -/
def planWindow (desc : Desc) : Plan :=
  if knownOp desc.op = false then reject desc 0 "compute_window_op_unsupported"
  else if knownBoundary desc.boundary = false then
    reject desc 0 "compute_window_boundary_unsupported"
  else if knownCountSource desc.countSource = false then
    reject desc 0 "compute_window_count_source_invalid"
  else
    let bytes := elementBytes desc.element
    if bytes = 0 then reject desc 0 "compute_window_element_unsupported"
    else if domainMatches desc.domain bytes = false then
      reject desc bytes "compute_window_domain_unsupported"
    else if desc.domain = .fixed ∧ primitiveFixedFormatValid bytes desc.fixedFormat
        desc.fixedFormat.approximation = false then
      reject desc bytes "compute_window_fixed_invalid"
    else if desc.domain ≠ .fixed ∧ computeFixedFormatAbsent desc.fixedFormat = false then
      reject desc bytes "compute_window_fixed_unexpected"
    else if desc.windowSize = 0 then reject desc bytes "compute_window_size_invalid"
    else if desc.stride = 0 then reject desc bytes "compute_window_stride_invalid"
    else if desc.padLeft ≥ desc.windowSize then reject desc bytes "compute_window_padding_invalid"
    else if desc.countSource ≠ .descriptor ∧ (desc.inputCount = 0 ∨
        desc.inputCount ≠ desc.outputCount ∨ desc.stride ≠ 1 ∨
        desc.windowSize - desc.padLeft - 1 ≠ desc.padLeft) then
      reject desc bytes "compute_window_shape_invalid"
    else if desc.inputCount = 0 ∨ desc.outputCount = 0 then
      if desc.inputCount ≠ 0 ∨ desc.outputCount ≠ 0 then
        reject desc bytes "compute_window_count_invalid"
      else if desc.op ≠ .sum then reject desc bytes "compute_window_count_zero"
      else { desc.copied bytes with inputCount := 0, outputCount := 0, ok := true, reason := "ok" }
    else if lastWindowIntersects desc = false then
      reject desc bytes "compute_window_shape_invalid"
    else if checkedMul desc.inputCount bytes = false ∨ checkedMul desc.outputCount bytes = false then
      reject desc bytes "compute_window_bytes_overflow"
    else
      { desc.copied bytes with
        inputBytes := desc.inputCount * bytes
        outputBytes := desc.outputCount * bytes
        tempBytes := 0
        passCount := 1
        ok := true
        reason := "ok" }

/-- What `run_window` makes of a plan whose counts come from a buffer. -/
def Plan.resident (capacity : Plan) (count : UInt64) : Plan :=
  { capacity with
    inputCount := count
    outputCount := count
    inputBytes := count * capacity.elementBytes
    outputBytes := count * capacity.elementBytes }

/-- The plans that `run_window` runs: the planned one, or one with a resident count. -/
def Runs (capacity plan : Plan) : Prop :=
  capacity.countSource = .descriptor ∧ plan = capacity ∨ capacity.countSource ≠ .descriptor ∧
    ∃ count, count ≤ capacity.inputCount ∧ plan = capacity.resident count

/-! ### What is planned -/

/-- A shape whose every window meets the input, with its last anchor a word. -/
structure Plan.Shaped (plan : Plan) : Prop where
  accepted : plan.ok = true
  known : plan.op = .sum ∨ plan.op = .min ∨ plan.op = .max
  inputs : 0 < plan.inputCount.toNat
  outputs : 0 < plan.outputCount.toNat
  stride : 0 < plan.stride.toNat
  padding : plan.padLeft.toNat < plan.windowSize.toNat
  anchor : (plan.outputCount.toNat - 1) * plan.stride.toNat < 2 ^ 64
  meets : (plan.outputCount.toNat - 1) * plan.stride.toNat <
    plan.padLeft.toNat + plan.inputCount.toNat

theorem toNat_pos {n : UInt64} (h : n ≠ 0) : 0 < n.toNat :=
  Nat.pos_of_ne_zero fun hz => h (UInt64.toNat_inj.mp hz)

/-- The last anchor, as a number. -/
theorem lastWindowIntersects_iff {desc : Desc} (h : desc.outputCount ≠ 0) :
    lastWindowIntersects desc = true ↔
      (desc.outputCount.toNat - 1) * desc.stride.toNat < 2 ^ 64 ∧
        (desc.outputCount.toNat - 1) * desc.stride.toNat <
          desc.padLeft.toNat + desc.inputCount.toNat := by
  have hpos := toNat_pos h
  have hpred : (desc.outputCount - 1).toNat = desc.outputCount.toNat - 1 := by
    rw [UInt64.toNat_sub_of_le]
    · rfl
    · rw [UInt64.le_iff_toNat_le]
      exact hpos
  rw [lastWindowIntersects, Bool.and_eq_true, checkedMul_iff, hpred]
  refine and_congr_right fun hfits => ?_
  have hmul : ((desc.outputCount - 1) * desc.stride).toNat =
      (desc.outputCount.toNat - 1) * desc.stride.toNat := by
    rw [toNat_mul_of_fits (by rw [hpred]; exact hfits), hpred]
  rw [Bool.or_eq_true, decide_eq_true_iff, decide_eq_true_iff, UInt64.lt_iff_toNat_lt,
    UInt64.lt_iff_toNat_lt, hmul]
  by_cases hpad : (desc.outputCount.toNat - 1) * desc.stride.toNat < desc.padLeft.toNat
  · exact ⟨fun _ => by omega, fun _ => Or.inl hpad⟩
  · rw [or_iff_right hpad, UInt64.toNat_sub_of_le, hmul]
    · omega
    · rw [UInt64.le_iff_toNat_le, hmul]
      omega

/-- What a description has passed when its plan is in order, and what the plan is. -/
structure Planned (desc : Desc) (plan : Plan) : Prop where
  op : knownOp desc.op = true
  stride : desc.stride ≠ 0
  padding : ¬ desc.padLeft ≥ desc.windowSize
  resident : desc.countSource ≠ .descriptor →
    desc.stride = 1 ∧ desc.inputCount = desc.outputCount
  counts : desc.inputCount = 0 ∧ plan.inputCount = 0 ∧ plan.outputCount = 0 ∨
    desc.inputCount ≠ 0 ∧ desc.outputCount ≠ 0 ∧ lastWindowIntersects desc = true ∧
      plan.inputCount = desc.inputCount ∧ plan.outputCount = desc.outputCount
  copied : plan.ok = true ∧ plan.op = desc.op ∧ plan.countSource = desc.countSource ∧
    plan.windowSize = desc.windowSize ∧ plan.stride = desc.stride ∧ plan.padLeft = desc.padLeft

/-- A plan in order was not rejected by this check. -/
theorem passed {p : Prop} [Decidable p] {desc : Desc} {bytes : UInt64} {reason : String}
    {other plan : Plan} (hplan : (if p then reject desc bytes reason else other) = plan)
    (hok : plan.ok = true) : ¬ p ∧ other = plan := by
  by_cases hp : p
  · rw [if_pos hp] at hplan
    rw [← hplan] at hok
    exact absurd hok Bool.noConfusion
  · rw [if_neg hp] at hplan
    exact ⟨hp, hplan⟩

theorem planned_of_ok {desc : Desc} {plan : Plan} (hplan : planWindow desc = plan)
    (hok : plan.ok = true) : Planned desc plan := by
  rw [planWindow] at hplan
  dsimp only at hplan
  obtain ⟨hop, hplan⟩ := passed hplan hok
  obtain ⟨-, hplan⟩ := passed hplan hok
  obtain ⟨-, hplan⟩ := passed hplan hok
  obtain ⟨-, hplan⟩ := passed hplan hok
  obtain ⟨-, hplan⟩ := passed hplan hok
  obtain ⟨-, hplan⟩ := passed hplan hok
  obtain ⟨-, hplan⟩ := passed hplan hok
  obtain ⟨-, hplan⟩ := passed hplan hok
  obtain ⟨hstride, hplan⟩ := passed hplan hok
  obtain ⟨hpadding, hplan⟩ := passed hplan hok
  obtain ⟨hshape, hplan⟩ := passed hplan hok
  rw [Bool.not_eq_false] at hop
  have hresident : desc.countSource ≠ .descriptor →
      desc.stride = 1 ∧ desc.inputCount = desc.outputCount := by
    intro hsource
    constructor
    · by_contra hne
      exact hshape ⟨hsource, Or.inr (Or.inr (Or.inl hne))⟩
    · by_contra hne
      exact hshape ⟨hsource, Or.inr (Or.inl hne)⟩
  by_cases hcount : desc.inputCount = 0 ∨ desc.outputCount = 0
  · rw [if_pos hcount] at hplan
    obtain ⟨hzero, hplan⟩ := passed hplan hok
    obtain ⟨-, rfl⟩ := passed hplan hok
    rw [not_or, not_not] at hzero
    exact ⟨hop, hstride, hpadding, hresident, Or.inl ⟨hzero.1, rfl, rfl⟩, rfl, rfl, rfl, rfl, rfl, rfl⟩
  · rw [if_neg hcount] at hplan
    obtain ⟨hlast, hplan⟩ := passed hplan hok
    obtain ⟨-, rfl⟩ := passed hplan hok
    rw [Bool.not_eq_false] at hlast
    rw [not_or] at hcount
    exact ⟨hop, hstride, hpadding, hresident, Or.inr ⟨hcount.1, hcount.2, hlast, rfl, rfl⟩,
      rfl, rfl, rfl, rfl, rfl, rfl⟩

/-- **What is planned with inputs is a shape.** -/
theorem Planned.shaped {desc : Desc} {plan : Plan} (h : Planned desc plan)
    (hinputs : plan.inputCount ≠ 0) : plan.Shaped := by
  obtain ⟨hok, hop, -, hwindow, hstride, hpad⟩ := h.copied
  rcases h.counts with ⟨-, hzero, -⟩ | ⟨hin, hout, hlast, hins, houts⟩
  · exact absurd hzero hinputs
  · obtain ⟨hanchor, hmeets⟩ := (lastWindowIntersects_iff hout).mp hlast
    have hpadding := h.padding
    rw [ge_iff_le, UInt64.le_iff_toNat_le] at hpadding
    refine ⟨hok, ?_, ?_, ?_, ?_, ?_, ?_, ?_⟩
    · rw [hop]
      have hknown := h.op
      cases hcase : desc.op with
      | sum => exact Or.inl rfl
      | min => exact Or.inr (Or.inl rfl)
      | max => exact Or.inr (Or.inr rfl)
      | unknown value =>
          rw [hcase] at hknown
          cases hknown
    · exact hins ▸ toNat_pos hin
    · exact houts ▸ toNat_pos hout
    · exact hstride ▸ toNat_pos h.stride
    · rw [hpad, hwindow]
      omega
    · rw [houts, hstride]
      exact hanchor
    · rw [houts, hstride, hpad, hins]
      exact hmeets

/-- **Every plan that is run over some input is a shape.** -/
theorem shaped_of_runs {desc : Desc} {plan : Plan} (h : (planWindow desc).ok = true)
    (hruns : Runs (planWindow desc) plan) (hinputs : plan.inputCount ≠ 0) : plan.Shaped := by
  have hplanned := planned_of_ok rfl h
  rcases hruns with ⟨-, rfl⟩ | ⟨hsource, count, hcount, rfl⟩
  · exact hplanned.shaped hinputs
  · have hpos : 0 < count.toNat := toNat_pos hinputs
    have hcapacity : (planWindow desc).inputCount ≠ 0 := by
      intro hzero
      rw [hzero, UInt64.le_iff_toNat_le] at hcount
      exact absurd (Nat.lt_of_lt_of_le hpos hcount) (Nat.lt_irrefl 0)
    have hshaped := hplanned.shaped hcapacity
    obtain ⟨-, -, hsame, -, hcopied, -⟩ := hplanned.copied
    have hstride : (planWindow desc).stride.toNat = 1 := by
      rw [hcopied, (hplanned.resident (hsame ▸ hsource)).1]
      rfl
    have hlt := count.toNat_lt
    refine ⟨hshaped.accepted, hshaped.known, hpos, hpos, hshaped.stride, hshaped.padding, ?_, ?_⟩
    · show (count.toNat - 1) * (planWindow desc).stride.toNat < 2 ^ 64
      rw [hstride]
      omega
    · show (count.toNat - 1) * (planWindow desc).stride.toNat <
        (planWindow desc).padLeft.toNat + count.toNat
      rw [hstride]
      omega

/-- A run writes no more outputs than were planned, with the same windows. -/
theorem outputCount_le_of_runs {desc : Desc} {plan : Plan} (h : (planWindow desc).ok = true)
    (hruns : Runs (planWindow desc) plan) (hinputs : plan.inputCount ≠ 0) :
    plan.outputCount.toNat ≤ (planWindow desc).outputCount.toNat := by
  have hplanned := planned_of_ok rfl h
  rcases hruns with ⟨-, rfl⟩ | ⟨hsource, count, hcount, rfl⟩
  · exact Nat.le_refl _
  · rw [UInt64.le_iff_toNat_le] at hcount
    have hsame := (hplanned.resident (hplanned.copied.2.2.1 ▸ hsource)).2
    rcases hplanned.counts with ⟨-, hzero, -⟩ | ⟨-, -, -, hins, houts⟩
    · rw [hzero] at hcount
      exact absurd (Nat.lt_of_lt_of_le (toNat_pos hinputs) hcount) (Nat.lt_irrefl 0)
    · rw [houts, ← hsame, ← hins]
      exact hcount

theorem op_of_runs {capacity plan : Plan} (hruns : Runs capacity plan) :
    plan.op = capacity.op ∧ plan.windowSize = capacity.windowSize ∧ plan.stride = capacity.stride ∧
      plan.fixedFormat = capacity.fixedFormat := by
  rcases hruns with ⟨-, rfl⟩ | ⟨-, count, -, rfl⟩
  · exact ⟨rfl, rfl, rfl, rfl⟩
  · exact ⟨rfl, rfl, rfl, rfl⟩

end Window

end RunD
