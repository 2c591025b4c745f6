/-
Dealing units to slots by capacity.

At a limit a slot takes `limit * capacity / kRatioScale` units.  The planner
searches for the least limit at which the slots take all the units, gives each
slot its units at that limit and trims the surplus one unit at a time.

The test of the search stops at the first slot at which the units are used up
and does not look at the slots after it (`LeadersTakeAll`).  The limit it finds
may then leave one of those slots without a unit, and the construction fails.
`all_unitsAt_pos_iff_leaders` says when that happens in terms of the capacities and
the units alone.
-/
import RunD.MinimaxSearch

namespace RunD.Planner

/-! ### The planner -/

section
variable {ε : Type}

/-- `UnitsAtLimit`. -/
def unitsAtLimit (limit : UInt64) (capacity totalUnits : UInt32) : UInt32 :=
  let whole := limit / kRatioScale
  let rem := limit % kRatioScale
  let base := whole * capacity.toUInt64
  if base ≥ totalUnits.toUInt64 then totalUnits
  else
    let extra := (rem * capacity.toUInt64) / kRatioScale
    (min totalUnits.toUInt64 (base + extra)).toUInt32

/-- `Feasible`. -/
def feasibleUnits (request : PartitionRequest) (partitionCount partitionUnits : UInt32)
    (limit : UInt64) : Checked ε Bool :=
  call do
    let _ ← forRange partitionCount.toNat (fun slot (total : UInt64) => do
      let capacity ← capacityForSlot request slot
      let units := unitsAtLimit limit capacity partitionUnits
      require (units ≠ 0) false
      let total := total + units.toUInt64
      require (¬ total ≥ partitionUnits.toUInt64) true
      pure total) 0
    pure false

/-- `MinimaxLimit`: the interval of the limits is a word's, which 64 halvings use up. -/
def minimaxUnitLimit (request : PartitionRequest) (partitionCount partitionUnits : UInt32) :
    Checked ε UInt64 := do
  let found ← searchLimit (feasibleUnits request partitionCount partitionUnits) 64 0
    (partitionUnits.toUInt64 * kRatioScale)
  pure found.1

/-- `RatioGreater`. -/
def ratioGreater (lhsUnits lhsCapacity rhsUnits rhsCapacity : UInt32) : Bool :=
  lhsUnits.toUInt64 * rhsCapacity.toUInt64 > rhsUnits.toUInt64 * lhsCapacity.toUInt64

/-- `TrimSlot`; the size of the vector when no slot can be trimmed. -/
def trimSlot (widths : List Partition) (request : PartitionRequest) : Checked ε UInt32 := do
  let chosen ← forRange widths.length (fun slot (state : UInt32 × Bool) => do
    let width ← fetch widths slot
    if width.end ≤ 1 then pure state
    else if ¬ state.2 then pure (UInt32.ofNat slot, true)
    else do
      let capacity ← capacityForSlot request slot
      let best ← fetch widths state.1.toNat
      let bestCapacity ← capacityForSlot request state.1.toNat
      if ratioGreater width.end capacity best.end bestCapacity then
        pure (UInt32.ofNat slot, true)
      else pure state) (0, false)
  pure (if chosen.2 then chosen.1 else UInt32.ofNat widths.length)

/-- The widths of the slots and their sum. -/
structure UnitWidths where
  widths : List Partition := []
  total : UInt64 := 0

/-- One turn of the loop that trims the widths. -/
def trimOnce (request : PartitionRequest) (state : UnitWidths) :
    Checked (Option (List Partition)) UnitWidths := do
  let slot ← trimSlot state.widths request
  require (¬ slot.toNat ≥ state.widths.length) none
  let width ← fetch state.widths slot.toNat
  let widths ← assign state.widths slot.toNat { width with «end» := width.end - 1 }
  pure { widths := widths, total := state.total - 1 }

/-- `BuildMinimaxUnitWidths`, or `none` for false.  A turn of the loop over the surplus takes one
unit off the sum, so that it makes as many turns as there are units too many. -/
def buildMinimaxUnitWidths (request : PartitionRequest) (partitionCount partitionUnits : UInt32) :
    Checked ε (Option (List Partition)) :=
  call do
    let limit ← minimaxUnitLimit request partitionCount partitionUnits
    let given ← forRange partitionCount.toNat (fun slot (state : UnitWidths) => do
      let capacity ← capacityForSlot request slot
      let width := unitsAtLimit limit capacity partitionUnits
      require (width ≠ 0) none
      pure { widths := state.widths ++ [{ workerIndex := UInt32.ofNat slot, «end» := width }],
             total := state.total + width.toUInt64 }) {}
    let trimmed ← forRange (given.total.toNat - partitionUnits.toNat)
      (fun _ state => trimOnce request state) given
    pure (if trimmed.total = partitionUnits.toUInt64 then some trimmed.widths else none)

end

/-! ### Units at a limit -/

theorem toNat_unitsAtLimit {limit : UInt64} {capacity totalUnits : UInt32}
    (h : limit.toNat ≤ totalUnits.toNat * ratioScale) :
    (unitsAtLimit limit capacity totalUnits).toNat =
      min totalUnits.toNat (limit.toNat * capacity.toNat / ratioScale) := by
  have hunits := totalUnits.toNat_lt
  have hcapacity := capacity.toNat_lt
  have hscale : kRatioScale.toNat = ratioScale := rfl
  have hpos : 0 < ratioScale := by decide
  have hwhole : limit.toNat / ratioScale ≤ totalUnits.toNat := by
    rw [Nat.div_le_iff_le_mul_add_pred hpos, Nat.mul_comm]
    exact le_trans h (Nat.le_add_right _ _)
  have hrem : limit.toNat % ratioScale < ratioScale := Nat.mod_lt _ hpos
  have hbaseBound : limit.toNat / ratioScale * capacity.toNat ≤ (2 ^ 32 - 1) * (2 ^ 32 - 1) :=
    Nat.mul_le_mul (by omega) (by omega)
  have hextraBound : limit.toNat % ratioScale * capacity.toNat ≤ 1000000 * (2 ^ 32 - 1) :=
    Nat.mul_le_mul (show _ ≤ 1000000 from hrem.le) (by omega)
  have hbase : (limit / kRatioScale * capacity.toUInt64).toNat =
      limit.toNat / ratioScale * capacity.toNat := by
    rw [toNat_mul_of_fits, UInt64.toNat_div, hscale, UInt32.toNat_toUInt64]
    rw [UInt64.toNat_div, hscale, UInt32.toNat_toUInt64]
    omega
  have hextra : (limit % kRatioScale * capacity.toUInt64 / kRatioScale).toNat =
      limit.toNat % ratioScale * capacity.toNat / ratioScale := by
    rw [UInt64.toNat_div, toNat_mul_of_fits, UInt64.toNat_mod, hscale, UInt32.toNat_toUInt64]
    rw [UInt64.toNat_mod, hscale, UInt32.toNat_toUInt64]
    omega
  have hextraSmall : limit.toNat % ratioScale * capacity.toNat / ratioScale ≤ capacity.toNat :=
    Nat.div_le_of_le_mul (Nat.mul_le_mul_right _ hrem.le)
  rw [unitsAtLimit, mul_div_ratioScale]
  dsimp only
  by_cases hfull : totalUnits.toNat ≤ limit.toNat / ratioScale * capacity.toNat
  · rw [if_pos (by rw [ge_iff_le, UInt64.le_iff_toNat_le, hbase, UInt32.toNat_toUInt64]
                   exact hfull)]
    exact (min_eq_left (le_trans hfull (Nat.le_add_right _ _))).symm
  · rw [if_neg (by rw [ge_iff_le, UInt64.le_iff_toNat_le, hbase, UInt32.toNat_toUInt64]
                   exact hfull)]
    have hsum : (limit / kRatioScale * capacity.toUInt64 +
        limit % kRatioScale * capacity.toUInt64 / kRatioScale).toNat =
          limit.toNat / ratioScale * capacity.toNat +
            limit.toNat % ratioScale * capacity.toNat / ratioScale := by
      rw [toNat_add_of_fits, hbase, hextra]
      rw [hbase, hextra]
      omega
    rw [UInt64.toNat_toUInt32, toNat_min_word, hsum, UInt32.toNat_toUInt64]
    exact Nat.mod_eq_of_lt (lt_of_le_of_lt (min_le_left _ _) hunits)

/-! ### The test of the search -/

/-- The units a slot takes at a limit. -/
def unitsAt (request : PartitionRequest) (limit slot : ℕ) : ℕ :=
  limit * slotCapacity request slot / ratioScale

theorem unitsAt_mono (request : PartitionRequest) {limit limit' : ℕ} (h : limit ≤ limit')
    (slot : ℕ) : unitsAt request limit slot ≤ unitsAt request limit' slot :=
  Nat.div_le_div_right (Nat.mul_le_mul_right _ h)

/-- Some first slots take all the units at the limit, and none of these goes without. -/
def LeadersTakeAll (request : PartitionRequest) (k units limit : ℕ) : Prop :=
  ∃ j, j ≤ k ∧ (∀ slot, slot < j → 0 < unitsAt request limit slot) ∧
    units ≤ cutOfWidths (unitsAt request limit) j

instance (request : PartitionRequest) (k units limit : ℕ) :
    Decidable (LeadersTakeAll request k units limit) :=
  inferInstanceAs (Decidable (∃ j, j ≤ k ∧ (∀ slot, slot < j → 0 < unitsAt request limit slot) ∧
    units ≤ cutOfWidths (unitsAt request limit) j))

theorem LeadersTakeAll.mono {request : PartitionRequest} {k units limit limit' : ℕ}
    (hle : limit ≤ limit') (h : LeadersTakeAll request k units limit) :
    LeadersTakeAll request k units limit' := by
  obtain ⟨j, hj, hpos, htake⟩ := h
  refine ⟨j, hj, fun slot hslot => ?_, ?_⟩
  · exact lt_of_lt_of_le (hpos slot hslot) (unitsAt_mono request hle slot)
  · exact le_trans htake (cutOfWidths_le fun i _ => unitsAt_mono request hle i)

/-- At the largest limit the first slot takes all the units. -/
theorem leadersTakeAll_top {request : PartitionRequest} {k units : ℕ} (hk : 0 < k)
    (hunits : 0 < units) (hcaps : HasCapacities request k) :
    LeadersTakeAll request k units (units * ratioScale) := by
  have hall : unitsAt request (units * ratioScale) 0 = units * slotCapacity request 0 := by
    rw [unitsAt, Nat.mul_right_comm]
    exact Nat.mul_div_cancel _ (by decide)
  have hle : units ≤ units * slotCapacity request 0 := Nat.le_mul_of_pos_right _ (hcaps 0 hk).2
  refine ⟨1, hk, fun slot hslot => ?_, ?_⟩
  · rw [Nat.lt_one_iff.mp hslot, hall]
    exact lt_of_lt_of_le hunits hle
  · rw [cutOfWidths_succ, cutOfWidths_zero, Nat.zero_add, hall]
    exact hle

/-- Capping every width by the units makes no difference to whether all units are taken. -/
theorem min_cutOfWidths_capped (units : ℕ) (width : ℕ → ℕ) (j : ℕ) :
    min units (cutOfWidths (fun i => min units (width i)) j) =
      min units (cutOfWidths width j) := by
  induction j with
  | zero => rfl
  | succ j ih =>
      rw [cutOfWidths_succ, cutOfWidths_succ]
      omega

theorem capped_lt_iff {units : ℕ} {width : ℕ → ℕ} {j : ℕ} :
    cutOfWidths (fun i => min units (width i)) j < units ↔ cutOfWidths width j < units := by
  have heq := min_cutOfWidths_capped units width j
  omega

section
variable {ε : Type} {E : ε → Prop}

/-- What a loop over the slots reads at one of them. -/
theorem slotUnits_eq {request : PartitionRequest} {k slot : ℕ} {limit : UInt64}
    {partitionUnits : UInt32} (hcaps : HasCapacities request k) (hslot : slot < k)
    (hlimit : limit.toNat ≤ partitionUnits.toNat * ratioScale) :
    ∃ capacity : UInt32, (capacityForSlot request slot : Checked ε UInt32) = Except.ok capacity ∧
      (unitsAtLimit limit capacity partitionUnits).toNat =
        min partitionUnits.toNat (unitsAt request limit.toNat slot) := by
  obtain ⟨capacity, hrun, hcapacity⟩ := capacityForSlot_eq (ε := ε) hcaps hslot
  refine ⟨capacity, hrun, ?_⟩
  rw [toNat_unitsAtLimit hlimit, hcapacity, unitsAt]

/-- **The test of the search** looks at the first slots only. -/
theorem ends_feasibleUnits {request : PartitionRequest} {partitionCount partitionUnits : UInt32}
    {limit : UInt64} (hcaps : HasCapacities request partitionCount.toNat)
    (hunits : 0 < partitionUnits.toNat)
    (hlimit : limit.toNat ≤ partitionUnits.toNat * ratioScale) :
    Ends (feasibleUnits request partitionCount partitionUnits limit)
      (fun fits => fits = true ↔
        LeadersTakeAll request partitionCount.toNat partitionUnits.toNat limit.toNat) E := by
  have hword := partitionUnits.toNat_lt
  apply Ends.call
  -- after `i` slots each has a unit and together they have not taken all
  refine Ends.bind (ends_forRange (fun i (total : UInt64) =>
    (∀ slot, slot < i → 0 < unitsAt request limit.toNat slot) ∧
      total.toNat = cutOfWidths
        (fun slot => min partitionUnits.toNat (unitsAt request limit.toNat slot)) i ∧
      total.toNat < partitionUnits.toNat) ⟨?_, rfl, hunits⟩ ?_) ?_
  · exact fun slot hslot => absurd hslot (Nat.not_lt_zero slot)
  · rintro slot total hslot ⟨hpos, hsum, hless⟩
    obtain ⟨capacity, hrun, heq⟩ := slotUnits_eq (ε := Bool) hcaps hslot hlimit
    rw [hrun, ok_bind]
    dsimp only
    generalize unitsAtLimit limit capacity partitionUnits = units at heq ⊢
    have hbefore : cutOfWidths (unitsAt request limit.toNat) slot < partitionUnits.toNat := by
      rw [hsum] at hless
      exact capped_lt_iff.mp hless
    refine Ends.require_bind (fun hzero => ?_) fun hne => ?_
    · -- a slot without a unit ends the leaders before it
      have hnone : unitsAt request limit.toNat slot = 0 := by
        have hunitsZero : units.toNat = 0 := by rw [not_not.mp hzero]; rfl
        omega
      simp only [Bool.false_eq_true, false_iff]
      rintro ⟨j, hj, hall, htake⟩
      have hle : j ≤ slot := by
        apply not_lt.mp
        intro hlt
        exact absurd (hall slot hlt) (by rw [hnone]; exact lt_irrefl 0)
      exact absurd htake (not_le.mpr (lt_of_le_of_lt (cutOfWidths_mono _ hle) hbefore))
    · have hunitsPos := toNat_pos_of_ne_zero hne
      have hposNext : ∀ s, s < slot + 1 → 0 < unitsAt request limit.toNat s := by
        intro s hs
        rcases Nat.lt_succ_iff_lt_or_eq.mp hs with hlt | rfl
        · exact hpos s hlt
        · exact lt_of_lt_of_le hunitsPos (heq.le.trans (min_le_right _ _))
      have htotal : (total + units.toUInt64).toNat = cutOfWidths
          (fun slot => min partitionUnits.toNat (unitsAt request limit.toNat slot)) (slot + 1) := by
        rw [toNat_add_of_fits, UInt32.toNat_toUInt64, cutOfWidths_succ, ← hsum, heq]
        rw [UInt32.toNat_toUInt64, heq]
        omega
      refine Ends.require_bind (fun hfull => ?_) fun hnot => ?_
      · rw [not_not, ge_iff_le, UInt64.le_iff_toNat_le, htotal, UInt32.toNat_toUInt64] at hfull
        refine iff_of_true rfl ⟨slot + 1, hslot, hposNext, ?_⟩
        exact not_lt.mp fun hlt => absurd hfull (not_le.mpr (capped_lt_iff.mpr hlt))
      · rw [ge_iff_le, UInt64.le_iff_toNat_le, UInt32.toNat_toUInt64, not_le] at hnot
        exact ends_pure ⟨hposNext, htotal, hnot⟩
  · rintro total ⟨-, hsum, hless⟩
    apply ends_pure
    simp only [Bool.false_eq_true, false_iff]
    rintro ⟨j, hj, -, htake⟩
    rw [hsum] at hless
    have hall := capped_lt_iff.mp hless
    exact absurd htake (not_le.mpr (lt_of_le_of_lt (cutOfWidths_mono _ hj) hall))

/-- **The limit found** is the least at which some first slots take all the units. -/
theorem minimaxUnitLimit_eq {request : PartitionRequest} {partitionCount partitionUnits : UInt32}
    (hcaps : HasCapacities request partitionCount.toNat) (hcount : 0 < partitionCount.toNat)
    (hunits : 0 < partitionUnits.toNat) :
    ∃ limit : UInt64, (minimaxUnitLimit request partitionCount partitionUnits : Checked ε UInt64) =
        Except.ok limit ∧ limit.toNat ≤ partitionUnits.toNat * ratioScale ∧
      IsLeast {m | LeadersTakeAll request partitionCount.toNat partitionUnits.toNat m}
        limit.toNat := by
  have hword := partitionUnits.toNat_lt
  have hhigh : (partitionUnits.toUInt64 * kRatioScale).toNat =
      partitionUnits.toNat * ratioScale := by
    rw [toNat_mul_of_fits, UInt32.toNat_toUInt64]
    · rfl
    · rw [UInt32.toNat_toUInt64]
      show partitionUnits.toNat * 1000000 < 2 ^ 64
      omega
  obtain ⟨limit, hrun, hlimit⟩ := searchLimit_eq (ε := ε)
    (feasibleUnits request partitionCount partitionUnits)
    (fun m => decide (LeadersTakeAll request partitionCount.toNat partitionUnits.toNat m))
    (show (0 : UInt64).toNat ≤ _ from Nat.zero_le _)
    (lt_of_le_of_lt (Nat.sub_le _ _) (UInt64.toNat_lt _)) (by
      intro limit hle
      obtain ⟨fits, hfits, hiff⟩ := Ends.returns
        (ends_feasibleUnits (E := fun _ => False) hcaps hunits
          (le_of_le_of_eq hle hhigh))
      rw [hfits]
      exact congrArg Except.ok (Bool.eq_iff_iff.mpr (by rw [hiff, decide_eq_true_iff])))
  have hleast := bisect_isLeast
    (fun m m' hle h => decide_eq_true (LeadersTakeAll.mono hle (of_decide_eq_true h)))
    (show (0 : UInt64).toNat ≤ _ from Nat.zero_le _) (lt_of_le_of_lt (Nat.sub_le _ _) (UInt64.toNat_lt _))
    (decide_eq_true (by rw [hhigh]; exact leadersTakeAll_top hcount hunits hcaps))
  rw [← hlimit] at hleast
  refine ⟨limit, ?_, ?_, of_decide_eq_true hleast.1.2, fun m hm => ?_⟩
  · rw [minimaxUnitLimit, hrun]
    rfl
  · rw [← hhigh, hlimit]
    exact (bisect_mem (Nat.zero_le _)).2
  · exact hleast.2 ⟨Nat.zero_le m, decide_eq_true hm⟩

end

/-! ### Trimming -/

/-- The width of a slot, kept in the `end` of its entry. -/
def widthAt (widths : List Partition) (slot : ℕ) : ℕ := (widths.getD slot {}).end.toNat

theorem widthAt_of_get {widths : List Partition} {slot : ℕ} {width : Partition}
    (h : widths[slot]? = some width) : widthAt widths slot = width.end.toNat := by
  rw [widthAt, List.getD_eq_getElem?_getD, h]
  rfl

theorem widthAt_append_lt {widths more : List Partition} {slot : ℕ} (h : slot < widths.length) :
    widthAt (widths ++ more) slot = widthAt widths slot := by
  rw [widthAt, widthAt, List.getD_eq_getElem?_getD, List.getD_eq_getElem?_getD,
    List.getElem?_append_left h]

theorem widthAt_append_self (widths : List Partition) (width : Partition) :
    widthAt (widths ++ [width]) widths.length = width.end.toNat := by
  apply widthAt_of_get
  rw [List.getElem?_append_right (le_refl _), Nat.sub_self]
  rfl

theorem widthAt_set {widths : List Partition} {slot s : ℕ} {width : Partition}
    (h : slot < widths.length) :
    widthAt (widths.set slot width) s = if s = slot then width.end.toNat else widthAt widths s := by
  by_cases heq : s = slot
  · rw [if_pos heq, heq]
    exact widthAt_of_get (List.getElem?_set_self h)
  · rw [if_neg heq, widthAt, widthAt, List.getD_eq_getElem?_getD, List.getD_eq_getElem?_getD,
      List.getElem?_set_ne (Ne.symm heq)]

/-- The widths of `k` slots, none of them zero, and their sum. -/
structure Widths (k : ℕ) (state : UnitWidths) : Prop where
  length : state.widths.length = k
  pos : ∀ slot, slot < k → 0 < widthAt state.widths slot
  total : state.total.toNat = cutOfWidths (widthAt state.widths) k

theorem cutOfWidths_const (c k : ℕ) : cutOfWidths (fun _ => c) k = k * c := by
  induction k with
  | zero => rw [cutOfWidths_zero, Nat.zero_mul]
  | succ k ih => rw [cutOfWidths_succ, ih, Nat.succ_mul]

/-- More units than slots: some slot has more than one. -/
theorem exists_wide {width : ℕ → ℕ} {k : ℕ} (h : k < cutOfWidths width k) :
    ∃ slot, slot < k ∧ 1 < width slot := by
  by_contra hnone
  push Not at hnone
  have hle := cutOfWidths_le hnone
  rw [cutOfWidths_const, Nat.mul_one] at hle
  exact absurd h (not_lt.mpr hle)

/-- One unit less in one slot is one less in the sum. -/
theorem cutOfWidths_pred (width width' : ℕ → ℕ) {slot k : ℕ} (hslot : slot < k)
    (hless : width' slot + 1 = width slot) (hsame : ∀ s, s ≠ slot → width' s = width s) :
    cutOfWidths width' k + 1 = cutOfWidths width k := by
  induction k with
  | zero => exact absurd hslot (Nat.not_lt_zero slot)
  | succ k ih =>
      rw [cutOfWidths_succ, cutOfWidths_succ]
      rcases Nat.lt_succ_iff_lt_or_eq.mp hslot with hlt | rfl
      · rw [← ih hlt, hsame k (Nat.ne_of_gt hlt)]
        omega
      · have hbefore : cutOfWidths width' slot = cutOfWidths width slot := by
          apply le_antisymm
          · exact cutOfWidths_le fun s hs => (hsame s (Nat.ne_of_lt hs)).le
          · exact cutOfWidths_le fun s hs => (hsame s (Nat.ne_of_lt hs)).ge
        rw [hbefore, ← hless]
        omega

section
variable {ε : Type} {E : ε → Prop}

/-- A slot with more than one unit is found where there is one. -/
theorem ends_trimSlot {widths : List Partition} {request : PartitionRequest}
    (hcaps : HasCapacities request widths.length) (hword : widths.length < 2 ^ 32)
    (hwide : ∃ slot, slot < widths.length ∧ 1 < widthAt widths slot) :
    Ends (trimSlot widths request)
      (fun slot => slot.toNat < widths.length ∧ 1 < widthAt widths slot.toNat) E := by
  rw [trimSlot]
  -- the slot kept so far can be trimmed, and there was none before one is kept
  refine Ends.bind (ends_forRange (fun i (state : UInt32 × Bool) =>
    (state.2 = true → state.1.toNat < i ∧ 1 < widthAt widths state.1.toNat) ∧
      (state.2 = false → ∀ s, s < i → widthAt widths s ≤ 1)) ⟨?_, ?_⟩ ?_) ?_
  · exact fun h => Bool.noConfusion h
  · exact fun _ s hs => absurd hs (Nat.not_lt_zero s)
  · rintro slot ⟨best, found⟩ hslot ⟨hkept, hnone⟩
    obtain ⟨width, hget⟩ : ∃ width, widths[slot]? = some width :=
      ⟨_, List.getElem?_eq_getElem hslot⟩
    have hwidth := widthAt_of_get hget
    have htake : 1 < widthAt widths slot → ((UInt32.ofNat slot, true).2 = true →
        (UInt32.ofNat slot).toNat < slot + 1 ∧ 1 < widthAt widths (UInt32.ofNat slot).toNat) ∧
        ((UInt32.ofNat slot, true).2 = false → ∀ s, s < slot + 1 → widthAt widths s ≤ 1) := by
      intro hone
      rw [toNat_ofNat_lt (hslot.trans hword)]
      exact ⟨fun _ => ⟨Nat.lt_succ_self slot, hone⟩, fun h => Bool.noConfusion h⟩
    have hkeep : found = true → best.toNat < slot + 1 ∧ 1 < widthAt widths best.toNat :=
      fun h => ⟨Nat.lt_succ_of_lt (hkept h).1, (hkept h).2⟩
    dsimp only at hkept hnone ⊢
    rw [fetch_of_lt hget, ok_bind]
    by_cases hthin : width.end ≤ 1
    · rw [if_pos hthin]
      refine ends_pure ⟨hkeep, fun h s hs => ?_⟩
      rcases Nat.lt_succ_iff_lt_or_eq.mp hs with hlt | rfl
      · exact hnone h s hlt
      · rw [hwidth]
        exact UInt32.le_iff_toNat_le.mp hthin
    have hone : 1 < widthAt widths slot := by
      rw [hwidth]
      exact not_le.mp fun hle => hthin (UInt32.le_iff_toNat_le.mpr hle)
    rw [if_neg hthin]
    cases hfound : found with
    | false =>
        rw [if_pos Bool.false_ne_true]
        exact ends_pure (htake hone)
    | true =>
        rw [if_neg (not_not_intro rfl)]
        have hbest : best.toNat < widths.length := (hkept hfound).1.trans hslot
        obtain ⟨capacity, hcapacity, -⟩ := capacityForSlot_eq (ε := ε) hcaps hslot
        obtain ⟨bestCapacity, hbestCapacity, -⟩ := capacityForSlot_eq (ε := ε) hcaps hbest
        obtain ⟨bestWidth, hbestGet⟩ : ∃ width, widths[best.toNat]? = some width :=
          ⟨_, List.getElem?_eq_getElem hbest⟩
        rw [hcapacity, ok_bind, fetch_of_lt hbestGet, ok_bind, hbestCapacity, ok_bind]
        cases ratioGreater width.end capacity bestWidth.end bestCapacity with
        | true => exact ends_pure (htake hone)
        | false =>
            exact ends_pure ⟨fun _ => hkeep hfound, fun h => Bool.noConfusion h⟩
  · rintro ⟨best, found⟩ ⟨hkept, hnone⟩
    cases found with
    | true => exact ends_pure (hkept rfl)
    | false =>
        obtain ⟨slot, hslot, hone⟩ := hwide
        exact absurd hone (not_lt.mpr (hnone rfl slot hslot))

end

/-- **One turn of the trimming** takes one unit off a slot that has more than one. -/
theorem ends_trimOnce {request : PartitionRequest} {k : ℕ} {state : UnitWidths}
    {E : Option (List Partition) → Prop} (hcaps : HasCapacities request k) (hword : k < 2 ^ 32)
    (h : Widths k state) (hmore : k < state.total.toNat) :
    Ends (trimOnce request state)
      (fun state' => Widths k state' ∧ state'.total.toNat + 1 = state.total.toNat) E := by
  have hlength := h.length
  rw [trimOnce]
  refine Ends.bind (ends_trimSlot (by rw [hlength]; exact hcaps) (by rw [hlength]; exact hword) ?_)
    fun slot hslot => ?_
  · rw [hlength]
    exact exists_wide (by rw [← h.total]; exact hmore)
  obtain ⟨hin, hone⟩ := hslot
  obtain ⟨width, hget⟩ : ∃ width, state.widths[slot.toNat]? = some width :=
    ⟨_, List.getElem?_eq_getElem hin⟩
  have hwidth := widthAt_of_get hget
  have hless : (width.end - 1).toNat = width.end.toNat - 1 := by
    rw [UInt32.toNat_sub_of_le]
    · rfl
    · rw [UInt32.le_iff_toNat_le, ← hwidth]
      exact hone.le
  have htotal : (state.total - 1).toNat = state.total.toNat - 1 := by
    rw [UInt64.toNat_sub_of_le]
    · rfl
    · rw [UInt64.le_iff_toNat_le]
      exact Nat.le_of_lt_succ (Nat.succ_lt_succ (Nat.lt_of_le_of_lt (Nat.zero_le k) hmore))
  refine Ends.require_bind (fun hno => absurd (not_le.mpr hin) hno) fun _ => ?_
  rw [fetch_of_lt hget, ok_bind, assign_of_lt hin, ok_bind]
  have hset : ∀ s, widthAt
      (state.widths.set slot.toNat { width with «end» := width.end - 1 }) s =
        if s = slot.toNat then width.end.toNat - 1 else widthAt state.widths s := by
    intro s
    rw [widthAt_set hin, ← hless]
  have hsum := cutOfWidths_pred (widthAt state.widths)
    (widthAt (state.widths.set slot.toNat { width with «end» := width.end - 1 }))
    (k := k) (by rw [← hlength]; exact hin)
    (by rw [hset, if_pos rfl, hwidth]; omega) (fun s hs => by rw [hset, if_neg hs])
  refine ends_pure ⟨⟨?_, fun s hs => ?_, ?_⟩, ?_⟩
  · show (state.widths.set _ _).length = k
    rw [List.length_set, hlength]
  · show 0 < widthAt (state.widths.set _ _) s
    rw [hset]
    by_cases heq : s = slot.toNat
    · rw [if_pos heq]
      omega
    · rw [if_neg heq]
      exact h.pos s hs
  · dsimp only
    rw [htotal, h.total]
    omega
  · show (state.total - 1).toNat + 1 = _
    rw [htotal]
    omega

/-! ### The widths -/

/-- What the planner returns at the limit `limit`: the widths of the slots, which add up to the
units, or nothing when some slot gets no unit. -/
structure WidthsAt (request : PartitionRequest) (k units limit : ℕ)
    (result : Option (List Partition)) : Prop where
  given : (∀ slot, slot < k → 0 < unitsAt request limit slot) →
    ∃ widths : List Partition, result = some widths ∧ widths.length = k ∧
      (∀ slot, slot < k → 0 < widthAt widths slot) ∧ cutOfWidths (widthAt widths) k = units
  starved : (∃ slot, slot < k ∧ unitsAt request limit slot = 0) → result = none

section
variable {ε : Type} {E : ε → Prop}

/-- **The widths** add up to the units whenever no slot is left without a unit at the limit. -/
theorem ends_buildMinimaxUnitWidths {request : PartitionRequest}
    {partitionCount partitionUnits : UInt32} (hcaps : HasCapacities request partitionCount.toNat)
    (hcount : 0 < partitionCount.toNat) (hle : partitionCount.toNat ≤ partitionUnits.toNat) :
    ∃ limit, IsLeast {m | LeadersTakeAll request partitionCount.toNat partitionUnits.toNat m}
        limit ∧
      Ends (buildMinimaxUnitWidths request partitionCount partitionUnits)
        (WidthsAt request partitionCount.toNat partitionUnits.toNat limit) E := by
  have hk := partitionCount.toNat_lt
  have hword := partitionUnits.toNat_lt
  have hunits := lt_of_lt_of_le hcount hle
  obtain ⟨limit, hrun, hlimit, hleast⟩ :=
    minimaxUnitLimit_eq (ε := Option (List Partition)) hcaps hcount hunits
  refine ⟨limit.toNat, hleast, ?_⟩
  apply Ends.call
  rw [hrun, ok_bind]
  -- after `i` slots each has its units at the limit
  refine Ends.bind (ends_forRange (fun i (state : UnitWidths) =>
    Widths i state ∧ (∀ slot, slot < i → 0 < unitsAt request limit.toNat slot) ∧
      state.total.toNat = cutOfWidths
        (fun slot => min partitionUnits.toNat (unitsAt request limit.toNat slot)) i)
    ⟨⟨rfl, ?_, rfl⟩, ?_, rfl⟩ ?_) ?_
  · exact fun slot hslot => absurd hslot (Nat.not_lt_zero slot)
  · exact fun slot hslot => absurd hslot (Nat.not_lt_zero slot)
  · rintro slot state hslot ⟨hwidths, hpos, hsum⟩
    obtain ⟨capacity, hcapacity, heq⟩ :=
      slotUnits_eq (ε := Option (List Partition)) hcaps hslot hlimit
    rw [hcapacity, ok_bind]
    dsimp only
    generalize unitsAtLimit limit capacity partitionUnits = width at heq ⊢
    refine Ends.require_bind (fun hzero => ?_) fun hne => ?_
    · have hnone : unitsAt request limit.toNat slot = 0 := by
        have hwidthZero : width.toNat = 0 := by rw [not_not.mp hzero]; rfl
        omega
      exact ⟨fun hall => absurd (hall slot hslot) (by rw [hnone]; exact lt_irrefl 0),
        fun _ => rfl⟩
    · have hwidthPos := toNat_pos_of_ne_zero hne
      have hbound : cutOfWidths
          (fun slot => min partitionUnits.toNat (unitsAt request limit.toNat slot)) slot ≤
            slot * partitionUnits.toNat := by
        rw [← cutOfWidths_const]
        exact cutOfWidths_le fun i _ => min_le_left _ _
      have hmul : slot * partitionUnits.toNat ≤ (2 ^ 32 - 1) * (2 ^ 32 - 1) :=
        Nat.mul_le_mul (by omega) (by omega)
      have htotal : (state.total + width.toUInt64).toNat = state.total.toNat + width.toNat := by
        rw [toNat_add_of_fits, UInt32.toNat_toUInt64]
        rw [UInt32.toNat_toUInt64]
        omega
      have hlast := widthAt_append_self state.widths
        { workerIndex := UInt32.ofNat slot, «end» := width }
      rw [hwidths.length] at hlast
      refine ends_pure ⟨⟨?_, fun s hs => ?_, ?_⟩, fun s hs => ?_, ?_⟩
      · show (state.widths ++ _).length = _
        rw [List.length_append, hwidths.length]
        rfl
      · dsimp only
        rcases Nat.lt_succ_iff_lt_or_eq.mp hs with hlt | rfl
        · rw [widthAt_append_lt (by rw [hwidths.length]; exact hlt)]
          exact hwidths.pos s hlt
        · rw [hlast]
          exact hwidthPos
      · dsimp only
        rw [htotal, cutOfWidths_succ, hlast, hwidths.total]
        congr 1
        apply le_antisymm
        · exact cutOfWidths_le fun s hs =>
            (widthAt_append_lt (by rw [hwidths.length]; exact hs)).ge
        · exact cutOfWidths_le fun s hs =>
            (widthAt_append_lt (by rw [hwidths.length]; exact hs)).le
      · rcases Nat.lt_succ_iff_lt_or_eq.mp hs with hlt | rfl
        · exact hpos s hlt
        · exact lt_of_lt_of_le hwidthPos (heq.le.trans (min_le_right _ _))
      · dsimp only
        rw [htotal, hsum, cutOfWidths_succ, heq]
  · rintro given ⟨hwidths, hpos, hsum⟩
    -- the leaders alone take all the units at this limit
    have henough : partitionUnits.toNat ≤ given.total.toNat := by
      obtain ⟨j, hj, -, htake⟩ := hleast.1
      apply not_lt.mp
      intro hlt
      rw [hsum] at hlt
      exact absurd (le_trans htake (cutOfWidths_mono _ hj)) (not_le.mpr (capped_lt_iff.mp hlt))
    refine Ends.bind (ends_forRange (fun turn (state : UnitWidths) =>
      Widths partitionCount.toNat state ∧ state.total.toNat + turn = given.total.toNat)
      ⟨hwidths, rfl⟩ ?_) ?_
    · rintro turn state hturn ⟨hstate, htotal⟩
      refine Ends.mono_post (ends_trimOnce hcaps hk hstate (by omega)) ?_
      rintro state' ⟨hstate', hless⟩
      exact ⟨hstate', by omega⟩
    · rintro trimmed ⟨htrimmed, htotal⟩
      have hexact : trimmed.total.toNat = partitionUnits.toNat := by omega
      rw [if_pos (UInt64.toNat_inj.mp (by rw [hexact, UInt32.toNat_toUInt64]))]
      refine ends_pure ⟨fun _ => ⟨trimmed.widths, rfl, htrimmed.length, htrimmed.pos, ?_⟩, ?_⟩
      · rw [← htrimmed.total, hexact]
      · rintro ⟨slot, hslot, hnone⟩
        exact absurd (hpos slot hslot) (by rw [hnone]; exact lt_irrefl 0)

end

/-! ### When a slot starves -/

/-- The least capacity of the first `k` slots. -/
def leastCapacity (request : PartitionRequest) : ℕ → ℕ
  | 0 => slotCapacity request 0
  | k + 1 => min (leastCapacity request k) (slotCapacity request k)

theorem leastCapacity_le (request : PartitionRequest) {slot k : ℕ} (h : slot < k) :
    leastCapacity request k ≤ slotCapacity request slot := by
  induction k with
  | zero => exact absurd h (Nat.not_lt_zero slot)
  | succ k ih =>
      rcases Nat.lt_succ_iff_lt_or_eq.mp h with hlt | rfl
      · exact le_trans (min_le_left _ _) (ih hlt)
      · exact min_le_right _ _

theorem exists_leastCapacity (request : PartitionRequest) {k : ℕ} (hk : 0 < k) :
    ∃ slot, slot < k ∧ slotCapacity request slot = leastCapacity request k := by
  induction k, hk using Nat.le_induction with
  | base => exact ⟨0, Nat.zero_lt_one, (min_self _).symm⟩
  | succ k _ ih =>
      obtain ⟨slot, hslot, heq⟩ := ih
      rcases le_total (leastCapacity request k) (slotCapacity request k) with hle | hle
      · exact ⟨slot, Nat.lt_succ_of_lt hslot, by rw [heq, leastCapacity, min_eq_left hle]⟩
      · exact ⟨k, Nat.lt_succ_self k, by rw [leastCapacity, min_eq_right hle]⟩

/-- The largest limit at which some of the first `k` slots gets no unit. -/
def starvingLimit (request : PartitionRequest) (k : ℕ) : ℕ :=
  (ratioScale - 1) / leastCapacity request k

theorem unitsAt_pos_iff {request : PartitionRequest} {limit slot : ℕ} :
    0 < unitsAt request limit slot ↔ ratioScale ≤ limit * slotCapacity request slot := by
  rw [unitsAt, Nat.div_pos_iff]
  exact and_iff_right (by decide)

/-- Every slot gets a unit exactly above the starving limit. -/
theorem all_unitsAt_pos_iff {request : PartitionRequest} {k limit : ℕ} (hk : 0 < k)
    (hcaps : HasCapacities request k) :
    (∀ slot, slot < k → 0 < unitsAt request limit slot) ↔ starvingLimit request k < limit := by
  obtain ⟨slot, hslot, heq⟩ := exists_leastCapacity request hk
  have hpos : 0 < leastCapacity request k := by
    rw [← heq]
    exact (hcaps slot hslot).2
  have hscale : 0 < ratioScale := by decide
  have hiff : starvingLimit request k < limit ↔
      ratioScale ≤ limit * leastCapacity request k := by
    rw [starvingLimit, Nat.div_lt_iff_lt_mul hpos]
    omega
  rw [hiff]
  constructor
  · intro hall
    rw [← heq]
    exact unitsAt_pos_iff.mp (hall slot hslot)
  · intro hleast s hs
    exact unitsAt_pos_iff.mpr
      (le_trans hleast (Nat.mul_le_mul_left _ (leastCapacity_le request hs)))

/-- **When no slot starves**: when the leaders do not take all the units at the starving limit. -/
theorem all_unitsAt_pos_iff_leaders {request : PartitionRequest} {k units limit : ℕ} (hk : 0 < k)
    (hcaps : HasCapacities request k)
    (hlimit : IsLeast {m | LeadersTakeAll request k units m} limit) :
    (∀ slot, slot < k → 0 < unitsAt request limit slot) ↔
      ¬ LeadersTakeAll request k units (starvingLimit request k) := by
  rw [all_unitsAt_pos_iff hk hcaps]
  constructor
  · exact fun hlt htake => absurd (hlimit.2 htake) (not_le.mpr hlt)
  · exact fun hnot => not_le.mp fun hle => hnot (LeadersTakeAll.mono hle hlimit.1)

end RunD.Planner
