/-
The softmax rows of `math64` and `math32`.

A row is read in chunks of as many logits as a vector has lanes, the last chunk
padded.  Each logit becomes a weight by its difference from the greatest one, and
each weight is divided by the sum of all.  The difference is shifted up by four
bits before it is bounded, so a difference that does not fit loses its high bits,
and a logit far below the greatest one can weigh as much as that.  The row keeps
the order of its logits exactly when the depths that the shift leaves do; the
scalar weights always keep it.
-/
import Mathlib.Data.List.GetD
import RunD.MathDiv
import RunD.MathExp

namespace RunD

open RunD.Word
open RunD.Fixed (lowest highest lowest_nonpos highest_nonneg lowest_le_highest)
open RunD.Lane

/-! ### The operations of a width -/

/-- What a row needs of the arithmetic of its width: words of `w` bits, sums of `W` bits and
vectors of `lanes` lanes. -/
structure RowMath (w W lanes : ℕ) where
  subSat : BitVec w → BitVec w → BitVec w
  expNeg : BitVec w → BitVec w
  /-- `NormalizeWeights` of a lane. -/
  normalize : BitVec w → BitVec W → BitVec w
  /-- The saturating sum inside `ReduceAddSatWide`. -/
  satAdd : BitVec W → BitVec W → BitVec W

/-- `RowStatus`. -/
structure RowStatus where
  processed : ℕ := 0
  sizeMatch : Bool := true
  emptyInput : Bool := false
  overlapOk : Bool := true
  zeroSum : Bool := false
  deriving DecidableEq, Repr

def RowStatus.ok (status : RowStatus) : Bool := status.sizeMatch && status.overlapOk

/-- `ScalarSatU32`. -/
def scalarSatU32 (value : ℕ) : ℕ := if value > 2 ^ 32 - 1 then 2 ^ 32 - 1 else value

/-- `ValidateRow`, of the sizes of the two views and whether they overlap without being the
same. -/
def validateRow (size outSize : ℕ) (partiallyOverlaps : Bool) : RowStatus :=
  if size ≠ outSize then { processed := 0, sizeMatch := false }
  else if partiallyOverlaps then { processed := 0, overlapOk := false }
  else if size = 0 then { processed := 0, emptyInput := true }
  else { processed := scalarSatU32 outSize }

/-! ### Rows -/

namespace RowMath

variable {w W lanes : ℕ} [NeZero lanes] (math : RowMath w W lanes)

/-- The chunks of a row, the padded one included. -/
def chunks (lanes size : ℕ) : ℕ := (size + lanes - 1) / lanes

/-- A chunk of a view, `LoadI64` and `LoadTailI64`: a lane past the end is padding. -/
def loadLanes (values : List (BitVec w)) (base : ℕ) (pad : BitVec w) (lane : Fin lanes) :
    BitVec w :=
  values.getD (base + lane) pad

structure MaxState (w lanes : ℕ) where
  best : Fin lanes → BitVec w
  bestIndex : Fin lanes → BitVec w
  processed : BitVec w

structure MaxResult (w : ℕ) where
  value : BitVec w := 0#w
  index : BitVec w := 0#w
  processed : BitVec w := 0#w
  emptyInput : Bool := true
  deriving DecidableEq, Repr

/-- One chunk of `Max`. -/
def maxStep (values : List (BitVec w)) (state : MaxState w lanes) (chunk : ℕ) :
    MaxState w lanes :=
  let current := lanes * chunk
  let candidate : Fin lanes → BitVec w := loadLanes values current (fixedMin w)
  let take : Fin lanes → BitVec w := fun lane => gtSigned (candidate lane) (state.best lane)
  { best := fun lane => select (take lane) (candidate lane) (state.best lane)
    bestIndex := fun lane =>
      select (take lane) (BitVec.ofNat w (current + lane)) (state.bestIndex lane)
    processed := state.processed + BitVec.ofNat w (min lanes (values.length - current)) }

def maxRounds (values : List (BitVec w)) (n : ℕ) : MaxState w lanes :=
  (List.range n).foldl (maxStep values)
    { best := fun _ => fixedMin w, bestIndex := fun _ => 0#w, processed := 0#w }

/-- The best lane of `Max`, the first index among equal ones. -/
def maxReduce (state : MaxState w lanes) : BitVec w × BitVec w :=
  (List.finRange lanes).tail.foldl (fun row lane =>
    if (state.best lane).toInt > row.1.toInt ∨
        state.best lane = row.1 ∧ state.bestIndex lane < row.2
      then (state.best lane, state.bestIndex lane) else row)
    (state.best 0, state.bestIndex 0)

/-- `Max`. -/
def rowMax (lanes : ℕ) [NeZero lanes] (values : List (BitVec w)) : MaxResult w :=
  if values.isEmpty then {}
  else
    let state : MaxState w lanes := maxRounds values (chunks lanes values.length)
    let row := maxReduce state
    { value := row.1, index := row.2, processed := state.processed, emptyInput := false }

/-- `ExpWeights`; in a full chunk every lane is live. -/
def expWeights (logits : List (BitVec w)) (index : ℕ) (maxValue : BitVec w)
    (lane : Fin lanes) : BitVec w :=
  let loaded := loadLanes logits index (fixedMin w) lane
  let weights := math.expNeg (math.subSat loaded maxValue)
  select (maskLane w (decide (index + lane < logits.length))) weights 0#w

/-- `AddSatWide`. -/
def addSatWide (lhs rhs : BitVec W) : BitVec W :=
  let sum := lhs + rhs
  select (gtUnsigned lhs sum) (BitVec.allOnes W) sum

/-- `ReduceAddSatWide`. -/
def reduceAddSatWide (value : Fin lanes → BitVec W) : BitVec W :=
  (List.finRange lanes).foldl (fun sum lane => math.satAdd sum (value lane)) 0#W

/-- The sums of the lanes after `n` chunks. -/
def laneSums (logits : List (BitVec w)) (maxValue : BitVec w) (n : ℕ) : Fin lanes → BitVec W :=
  (List.range n).foldl (fun laneSum chunk lane =>
    addSatWide (laneSum lane)
      ((math.expWeights logits (lanes * chunk) maxValue lane).setWidth W)) fun _ => 0#W

/-- `WeightSumQ1_63` and `WeightSumQ1_31`. -/
def weightSum (logits : List (BitVec w)) (maxValue : BitVec w) : BitVec W :=
  math.reduceAddSatWide (math.laneSums logits maxValue (chunks lanes logits.length))

/-- `Store` and `StoreTailI64`: a lane past the end is not stored. -/
def storeLanes (out : List (BitVec w)) (base : ℕ) (value : Fin lanes → BitVec w) :
    List (BitVec w) :=
  out.mapIdx fun i old =>
    if h : base ≤ i ∧ i < base + lanes then value ⟨i - base, by omega⟩ else old

/-- The row after `n` chunks. -/
def storeRounds (logits : List (BitVec w)) (maxValue : BitVec w) (denominator : BitVec W)
    (out : List (BitVec w)) (n : ℕ) : List (BitVec w) :=
  (List.range n).foldl (fun out chunk =>
    storeLanes out (lanes * chunk) fun lane : Fin lanes =>
      math.normalize (math.expWeights logits (lanes * chunk) maxValue lane) denominator) out

/-- `SoftmaxApprox`. -/
def softmaxApprox (logits out : List (BitVec w)) (partiallyOverlaps : Bool) :
    RowStatus × List (BitVec w) :=
  let status := validateRow logits.length out.length partiallyOverlaps
  if !status.ok || status.emptyInput then (status, out)
  else
    let max := rowMax lanes logits
    let denominator := math.weightSum logits max.value
    if denominator = 0#W then ({ processed := status.processed, zeroSum := true }, out)
    else (status, math.storeRounds logits max.value denominator out (chunks lanes logits.length))

end RowMath

namespace Math64

def subSat (lhs rhs : BitVec 64) : BitVec 64 :=
  clampI128x2ToI64x (widen 128 lhs - widen 128 rhs)

def normalizeWeights (weights : BitVec 64) (denominator : BitVec 128) : BitVec 64 :=
  let numerator := weights.setWidth 128 <<< 63
  let quotient := unsignedDiv128 numerator denominator
  let fixedMaxWide := BitVec.ofNat 128 (2 ^ 63 - 1)
  let clamped := select (gtUnsigned quotient fixedMaxWide) fixedMaxWide quotient
  clamped.setWidth 64

/-- The step of `ReduceAddSatWide`. -/
def satAdd (sum lane : BitVec 128) : BitVec 128 :=
  let next := sum + lane
  if next < sum then BitVec.allOnes 128 else next

def rowMath : RowMath 64 128 2 where
  subSat := subSat
  expNeg := expNeg
  normalize := normalizeWeights
  satAdd := satAdd

end Math64

namespace Math32

def subSat (lhs rhs : BitVec 32) : BitVec 32 := clampWideToI32x (widen 64 lhs - widen 64 rhs)

def normalizeWeights (weights : BitVec 32) (denominator : BitVec 64) : BitVec 32 :=
  clampU64x4ToI32x (unsignedDiv64 (weights.setWidth 64 <<< 31) denominator)

/-- `ScalarSatAdd`. -/
def scalarSatAdd (lhs rhs : BitVec 64) : BitVec 64 :=
  if lhs > BitVec.allOnes 64 - rhs then BitVec.allOnes 64 else lhs + rhs

def rowMath : RowMath 32 64 4 where
  subSat := subSat
  expNeg := expNeg
  normalize := normalizeWeights
  satAdd := scalarSatAdd

end Math32

/-! ### The greatest logit -/

namespace RowMath

variable {w W lanes : ℕ} [NeZero lanes] (math : RowMath w W lanes)

omit [NeZero lanes] in
theorem loadLanes_mem (values : List (BitVec w)) (base : ℕ) (pad : BitVec w) (lane : Fin lanes) :
    loadLanes values base pad lane = pad ∨ loadLanes values base pad lane ∈ values := by
  rw [loadLanes]
  rcases Nat.lt_or_ge (base + lane) values.length with hlt | hge
  · right
    rw [List.getD_eq_getElem _ _ hlt]
    exact List.getElem_mem hlt
  · left
    exact List.getD_eq_default _ _ hge

/-- The lane of a position in its chunk. -/
def laneOf (lanes : ℕ) [NeZero lanes] (position : ℕ) : Fin lanes :=
  ⟨position % lanes, Nat.mod_lt _ (NeZero.pos lanes)⟩

theorem chunk_add_laneOf (position : ℕ) :
    lanes * (position / lanes) + (laneOf lanes position : ℕ) = position :=
  Nat.div_add_mod position lanes

theorem chunk_lt_chunks {position size : ℕ} (h : position < size) :
    position / lanes < chunks lanes size := by
  have hpos : 0 < lanes := NeZero.pos lanes
  rw [chunks, Nat.div_lt_iff_lt_mul hpos]
  have hdiv := Nat.div_add_mod (size + lanes - 1) lanes
  have hmod : (size + lanes - 1) % lanes < lanes := Nat.mod_lt _ hpos
  rw [Nat.mul_comm]
  omega

omit [NeZero lanes] in
/-- After some chunks each lane holds the greatest value that it has seen. -/
theorem maxRounds_best (values : List (BitVec w)) (n : ℕ) (lane : Fin lanes) :
    (∀ chunk < n, (loadLanes values (lanes * chunk) (fixedMin w) lane).toInt ≤
        ((maxRounds values n).best lane).toInt) ∧
      ((maxRounds values n).best lane = fixedMin w ∨ (maxRounds values n).best lane ∈ values) := by
  induction n with
  | zero => exact ⟨fun chunk h => absurd h (Nat.not_lt_zero _), Or.inl rfl⟩
  | succ n ih =>
      set candidate := loadLanes values (lanes * n) (fixedMin w) lane with hcandidate
      set best := (maxRounds values n).best lane with hbest
      have hnext : (maxRounds values (n + 1)).best lane =
          if best.toInt < candidate.toInt then candidate else best := by
        rw [maxRounds, List.range_succ, List.foldl_append]
        show select (gtSigned candidate best) candidate best = _
        rw [gtSigned, select_maskLane]
        simp
      rw [hnext]
      split_ifs with htake
      · refine ⟨fun chunk h => ?_, loadLanes_mem values _ _ lane⟩
        rcases Nat.lt_succ_iff_lt_or_eq.mp h with hlt | heq
        · exact (ih.1 chunk hlt).trans htake.le
        · rw [heq]
      · refine ⟨fun chunk h => ?_, ih.2⟩
        rcases Nat.lt_succ_iff_lt_or_eq.mp h with hlt | heq
        · exact ih.1 chunk hlt
        · rw [heq]
          exact not_lt.mp htake

/-- The reduction keeps the greatest of the lanes. -/
theorem maxReduce_fst (state : MaxState w lanes) :
    (∀ lane, (state.best lane).toInt ≤ (maxReduce state).1.toInt) ∧
      ∃ lane, (maxReduce state).1 = state.best lane := by
  have hfold : ∀ (rest : List (Fin lanes)) (row : BitVec w × BitVec w),
      let final := rest.foldl (fun row lane =>
        if (state.best lane).toInt > row.1.toInt ∨
            state.best lane = row.1 ∧ state.bestIndex lane < row.2
          then (state.best lane, state.bestIndex lane) else row) row
      row.1.toInt ≤ final.1.toInt ∧ (∀ lane ∈ rest, (state.best lane).toInt ≤ final.1.toInt) ∧
        (final.1 = row.1 ∨ ∃ lane, final.1 = state.best lane) := by
    intro rest
    induction rest with
    | nil => exact fun row => ⟨le_rfl, by simp, Or.inl rfl⟩
    | cons lane rest ih =>
        intro row
        obtain ⟨hrow, hrest, hfrom⟩ := ih
          (if (state.best lane).toInt > row.1.toInt ∨
              state.best lane = row.1 ∧ state.bestIndex lane < row.2
            then (state.best lane, state.bestIndex lane) else row)
        have hstep : row.1.toInt ≤ (if (state.best lane).toInt > row.1.toInt ∨
              state.best lane = row.1 ∧ state.bestIndex lane < row.2
            then (state.best lane, state.bestIndex lane) else row).1.toInt ∧
            (state.best lane).toInt ≤ (if (state.best lane).toInt > row.1.toInt ∨
              state.best lane = row.1 ∧ state.bestIndex lane < row.2
            then (state.best lane, state.bestIndex lane) else row).1.toInt := by
          split_ifs with htake
          · refine ⟨?_, le_rfl⟩
            rcases htake with hgt | ⟨heq, -⟩
            · exact hgt.le
            · rw [heq]
          · exact ⟨le_rfl, not_lt.mp fun hgt => htake (Or.inl hgt)⟩
        refine ⟨hstep.1.trans hrow, ?_, ?_⟩
        · intro other hother
          rcases List.mem_cons.mp hother with rfl | hin
          · exact hstep.2.trans hrow
          · exact hrest other hin
        · rcases hfrom with hsame | hlane
          · rw [List.foldl_cons, hsame]
            split_ifs
            · exact Or.inr ⟨lane, rfl⟩
            · exact Or.inl rfl
          · exact Or.inr hlane
  obtain ⟨hfirst, hrest, hfrom⟩ :=
    hfold (List.finRange lanes).tail (state.best 0, state.bestIndex 0)
  refine ⟨fun lane => ?_, ?_⟩
  · have hlane : lane = 0 ∨ lane ∈ (List.finRange lanes).tail := by
      have hmem := List.mem_finRange lane
      obtain ⟨n, rfl⟩ := Nat.exists_eq_succ_of_ne_zero (NeZero.ne lanes)
      rw [List.finRange_succ] at hmem ⊢
      exact List.mem_cons.mp hmem
    rcases hlane with rfl | htail
    · exact hfirst
    · exact hrest lane htail
  · rcases hfrom with hsame | hlane
    · exact ⟨0, hsame⟩
    · exact hlane

/-- **`Max` is the greatest value of a row.** -/
theorem rowMax_value (hw : 0 < w) {values : List (BitVec w)} {top : BitVec w}
    (hmem : top ∈ values) (htop : ∀ value ∈ values, value.toInt ≤ top.toInt) :
    (rowMax lanes values).value = top := by
  have hnonempty : values.isEmpty = false := by
    rw [List.isEmpty_eq_false_iff]
    exact List.ne_nil_of_mem hmem
  rw [rowMax, hnonempty, if_neg (by decide)]
  set state : MaxState w lanes := maxRounds values (chunks lanes values.length) with hstate
  obtain ⟨hall, lane, hlane⟩ := maxReduce_fst state
  apply BitVec.toInt_inj.mp
  apply le_antisymm
  · show (maxReduce state).1.toInt ≤ top.toInt
    rw [hlane]
    rcases (maxRounds_best values (chunks lanes values.length) lane).2 with hmin | hin
    · rw [hstate, hmin, toInt_fixedMin hw]
      exact toInt_lowest_le top
    · exact htop _ hin
  · obtain ⟨position, hposition, hvalue⟩ := List.getElem_of_mem hmem
    have hseen := (maxRounds_best values (chunks lanes values.length) (laneOf lanes position)).1
      (position / lanes) (chunk_lt_chunks hposition)
    rw [loadLanes, chunk_add_laneOf, List.getD_eq_getElem _ _ hposition, hvalue] at hseen
    exact hseen.trans (hall _)

/-! ### Weights and outputs -/

/-- The weight that the chunk of a position computes for it. -/
def weightAt (logits : List (BitVec w)) (position : ℕ) : BitVec w :=
  math.expWeights logits (lanes * (position / lanes)) (rowMax lanes logits).value
    (laneOf lanes position)

theorem weightAt_eq {logits : List (BitVec w)} {position : ℕ} (h : position < logits.length) :
    math.weightAt logits position =
      math.expNeg (math.subSat logits[position] (rowMax lanes logits).value) := by
  rw [weightAt, expWeights, loadLanes, chunk_add_laneOf, List.getD_eq_getElem _ _ h,
    select_maskLane, decide_eq_true h, if_pos rfl]

omit [NeZero lanes] in
theorem length_storeRounds (logits : List (BitVec w)) (maxValue : BitVec w)
    (denominator : BitVec W) (out : List (BitVec w)) (n : ℕ) :
    (math.storeRounds logits maxValue denominator out n).length = out.length := by
  induction n with
  | zero => rfl
  | succ n ih =>
      rw [storeRounds, List.range_succ, List.foldl_append] at *
      rw [List.foldl_cons, List.foldl_nil, storeLanes, List.length_mapIdx]
      exact ih

/-- After some chunks the positions in them hold their outputs. -/
theorem getD_storeRounds (logits : List (BitVec w)) (maxValue : BitVec w)
    (denominator : BitVec W) (out : List (BitVec w)) (n : ℕ) {position : ℕ}
    (h : position < out.length) (hn : position / lanes < n) :
    (math.storeRounds logits maxValue denominator out n).getD position 0#w =
      math.normalize (math.expWeights logits (lanes * (position / lanes)) maxValue
        (laneOf lanes position)) denominator := by
  induction n with
  | zero => exact absurd hn (Nat.not_lt_zero _)
  | succ n ih =>
      have hlength := math.length_storeRounds logits maxValue denominator out n
      have hsplit : lanes * (position / lanes) + (laneOf lanes position : ℕ) = position :=
        chunk_add_laneOf position
      have hlane := (laneOf lanes position).isLt
      have hnext : math.storeRounds logits maxValue denominator out (n + 1) =
          storeLanes (math.storeRounds logits maxValue denominator out n) (lanes * n)
            fun lane : Fin lanes => math.normalize
              (math.expWeights logits (lanes * n) maxValue lane) denominator := by
        rw [storeRounds, List.range_succ, List.foldl_append]
        rfl
      rw [hnext, storeLanes,
        List.getD_eq_getElem _ _ (by rw [List.length_mapIdx, hlength]; exact h),
        List.getElem_mapIdx]
      rcases Nat.lt_succ_iff_lt_or_eq.mp hn with hlt | heq
      · have hoff : ¬ (lanes * n ≤ position ∧ position < lanes * n + lanes) := by
          rintro ⟨hle, -⟩
          have hmul := Nat.mul_le_mul_left lanes (Nat.succ_le_of_lt hlt)
          rw [Nat.mul_succ] at hmul
          omega
        rw [dif_neg hoff, ← List.getD_eq_getElem _ 0#w]
        exact ih hlt
      · subst heq
        have hin : lanes * (position / lanes) ≤ position ∧
            position < lanes * (position / lanes) + lanes := by omega
        rw [dif_pos hin]
        congr 2
        apply Fin.ext
        show position - lanes * (position / lanes) = (laneOf lanes position : ℕ)
        omega

/-! ### The sum of the weights -/

omit [NeZero lanes] in
/-- Saturating sums of words, as the two vectors compute them. -/
theorem toNat_addSatWide (lhs rhs : BitVec W) :
    (addSatWide lhs rhs).toNat = min (lhs.toNat + rhs.toNat) (2 ^ W - 1) := by
  have hlhs := lhs.isLt
  have hrhs := rhs.isLt
  rw [addSatWide, gtUnsigned, select_maskLane]
  simp only [gt_iff_lt, BitVec.lt_def, BitVec.toNat_add, decide_eq_true_eq]
  rcases Nat.lt_or_ge (lhs.toNat + rhs.toNat) (2 ^ W) with hfits | hover
  · rw [Nat.mod_eq_of_lt hfits, if_neg (by omega), BitVec.toNat_add, Nat.mod_eq_of_lt hfits]
    omega
  · have hwrap : (lhs.toNat + rhs.toNat) % 2 ^ W = lhs.toNat + rhs.toNat - 2 ^ W := by
      rw [Nat.mod_eq_sub_mod hover, Nat.mod_eq_of_lt (by omega)]
    rw [hwrap, if_pos (by omega), BitVec.toNat_allOnes]
    omega

/-- What the row needs of the arithmetic of its width, for powers along the coefficients `cs`. -/
structure Laws (math : RowMath w W lanes) (cs : List ℤ) : Prop where
  width : 6 ≤ w ∧ w ≤ W
  subSat : ∀ lhs rhs, (math.subSat lhs rhs).toInt = clampTo w (lhs.toInt - rhs.toInt)
  expNeg : ∀ diff : BitVec w, diff.toInt ≤ 0 →
    (math.expNeg diff).toInt = expCurve w cs (16 * foldedDepth w diff.toInt.natAbs : ℕ)
  falls : ∀ {k k' : ℕ}, k < k' → 16 * k' ≤ 2 ^ (w - 1) →
    expCurve w cs (16 * k' : ℕ) < expCurve w cs (16 * k : ℕ)
  normalize : ∀ {lower higher : BitVec w} {denominator : BitVec W}, denominator ≠ 0#W →
    0 ≤ lower.toInt → lower.toInt ≤ higher.toInt →
    (math.normalize lower denominator).toInt ≤ (math.normalize higher denominator).toInt
  satAdd : ∀ lhs rhs, (math.satAdd lhs rhs).toNat = min (lhs.toNat + rhs.toNat) (2 ^ W - 1)

section Lawful

variable {math} {cs : List ℤ} (laws : math.Laws cs)
include laws

/-- The depth of a logit below the greatest one, as far as a word holds it. -/
def depthBelow (w : ℕ) (top logit : BitVec w) : ℕ :=
  min (top.toInt - logit.toInt).toNat (2 ^ (w - 1))

omit [NeZero lanes] in
theorem toInt_subSat {top logit : BitVec w} (h : logit.toInt ≤ top.toInt) :
    (math.subSat logit top).toInt = -(depthBelow w top logit : ℤ) := by
  have hlowest : lowest w = -((2 ^ (w - 1) : ℕ) : ℤ) := by simp [lowest]
  have hhighest := highest_nonneg w
  rw [laws.subSat, depthBelow]
  rcases le_or_gt (lowest w) (logit.toInt - top.toInt) with hin | hout
  · rw [clampTo_of_mem hin (by omega), min_eq_left (by omega)]
    omega
  · rw [clampTo_of_le hout.le, hlowest, min_eq_right (by omega)]

omit [NeZero lanes] in
/-- The weight of a logit that is not above the greatest one. -/
theorem toInt_weight {top logit : BitVec w} (h : logit.toInt ≤ top.toInt) :
    (math.expNeg (math.subSat logit top)).toInt =
      expCurve w cs (16 * foldedDepth w (depthBelow w top logit) : ℕ) := by
  have hdiff := toInt_subSat laws h
  rw [laws.expNeg _ (hdiff ▸ neg_nonpos.mpr (Int.natCast_nonneg _)), hdiff, Int.natAbs_neg,
    Int.natAbs_natCast]

omit [NeZero lanes] in
theorem weight_pos {top logit : BitVec w} (h : logit.toInt ≤ top.toInt) :
    0 < (math.expNeg (math.subSat logit top)).toInt := by
  have hwidth := laws.width.1
  rw [toInt_weight laws h]
  refine lt_of_lt_of_le ?_ (half_le_expCurve (by omega) cs _).1
  exact_mod_cast Nat.two_pow_pos (w - 2)

omit [NeZero lanes] in
/-- Weights compare as the depths that the shift leaves. -/
theorem weight_le_iff {top low high : BitVec w} (hlow : low.toInt ≤ top.toInt)
    (hhigh : high.toInt ≤ top.toInt) :
    (math.expNeg (math.subSat low top)).toInt ≤ (math.expNeg (math.subSat high top)).toInt ↔
      foldedDepth w (depthBelow w top high) ≤ foldedDepth w (depthBelow w top low) := by
  have hwidth := laws.width.1
  have hscale : 2 ^ (w - 1) = 16 * 2 ^ (w - 5) := by
    rw [show w - 1 = 4 + (w - 5) by omega, pow_add]
    norm_num
  have hbound : ∀ depth, 16 * foldedDepth w depth ≤ 2 ^ (w - 1) := by
    intro depth
    rw [hscale]
    exact Nat.mul_le_mul_left 16 (foldedDepth_le w depth)
  rw [toInt_weight laws hlow, toInt_weight laws hhigh]
  rcases lt_trichotomy (foldedDepth w (depthBelow w top high))
    (foldedDepth w (depthBelow w top low)) with hlt | heq | hgt
  · exact iff_of_true (laws.falls hlt (hbound _)).le hlt.le
  · rw [heq]
    exact iff_of_true le_rfl le_rfl
  · exact iff_of_false (not_le.mpr (laws.falls hgt (hbound _))) (not_le.mpr hgt)

/-- No sum of weights is zero. -/
theorem weightSum_ne_zero {logits : List (BitVec w)} {top : BitVec w} (hmem : top ∈ logits) :
    math.weightSum logits top ≠ 0#W := by
  have hW : 0 < W := by
    have hwidth := laws.width
    omega
  have hsum : ∀ (n : ℕ) (lane : Fin lanes), ∀ chunk < n,
      min ((math.expWeights logits (lanes * chunk) top lane).setWidth W).toNat (2 ^ W - 1) ≤
        (math.laneSums logits top n lane).toNat := by
    intro n lane
    induction n with
    | zero => exact fun chunk h => absurd h (Nat.not_lt_zero _)
    | succ n ih =>
        intro chunk h
        have hnext : (math.laneSums logits top (n + 1) lane).toNat =
            min ((math.laneSums logits top n lane).toNat +
              ((math.expWeights logits (lanes * n) top lane).setWidth W).toNat) (2 ^ W - 1) := by
          rw [laneSums, List.range_succ, List.foldl_append]
          exact toNat_addSatWide _ _
        rw [hnext]
        rcases Nat.lt_succ_iff_lt_or_eq.mp h with hlt | heq
        · have hseen := ih chunk hlt
          omega
        · rw [heq]
          omega
  have hreduce : ∀ (rest : List (Fin lanes)) (value : Fin lanes → BitVec W) (sum : BitVec W),
      sum.toNat ≤ (rest.foldl (fun sum lane => math.satAdd sum (value lane)) sum).toNat ∧
        ∀ lane ∈ rest, (value lane).toNat ≤
          (rest.foldl (fun sum lane => math.satAdd sum (value lane)) sum).toNat := by
    intro rest value
    induction rest with
    | nil => exact fun sum => ⟨le_rfl, by simp⟩
    | cons lane rest ih =>
        intro sum
        obtain ⟨hstart, hrest⟩ := ih (math.satAdd sum (value lane))
        have hadd := laws.satAdd sum (value lane)
        have hsumLt := sum.isLt
        have hvalueLt := (value lane).isLt
        refine ⟨le_trans (by omega) hstart, fun other hother => ?_⟩
        rcases List.mem_cons.mp hother with rfl | hin
        · exact le_trans (by omega) hstart
        · exact hrest other hin
  obtain ⟨position, hposition, hvalue⟩ := List.getElem_of_mem hmem
  intro hzero
  have hlane := hsum (chunks lanes logits.length) (laneOf lanes position) (position / lanes)
    (chunk_lt_chunks hposition)
  have htotal := (hreduce (List.finRange lanes)
    (math.laneSums logits top (chunks lanes logits.length)) 0#W).2 (laneOf lanes position)
    (List.mem_finRange _)
  rw [weightSum, reduceAddSatWide] at hzero
  rw [hzero] at htotal
  -- the weight at the position of the greatest logit is positive
  have hweight : math.expWeights logits (lanes * (position / lanes)) top (laneOf lanes position) =
      math.expNeg (math.subSat top top) := by
    rw [expWeights, loadLanes, chunk_add_laneOf, List.getD_eq_getElem _ _ hposition, hvalue,
      select_maskLane, decide_eq_true hposition, if_pos rfl]
  have hpos := weight_pos laws (le_refl top.toInt)
  have hnat : ((math.expNeg (math.subSat top top)).setWidth W).toNat ≠ 0 := by
    rw [BitVec.toNat_setWidth_of_le laws.width.2]
    intro hnone
    rw [BitVec.eq_of_toNat_eq (y := 0#w) hnone, BitVec.toInt_zero] at hpos
    exact absurd hpos (lt_irrefl 0)
  have htwo : 2 ≤ 2 ^ W := Nat.one_lt_two_pow hW.ne'
  rw [hweight] at hlane
  rw [BitVec.toNat_zero] at htotal
  omega

/-- **The outputs of a row** are its weights over their sum. -/
theorem getD_softmaxApprox {logits out : List (BitVec w)} {top : BitVec w} (hmem : top ∈ logits)
    (htop : ∀ logit ∈ logits, logit.toInt ≤ top.toInt) (hsize : logits.length = out.length)
    {position : ℕ} (h : position < logits.length) :
    (math.softmaxApprox logits out false).2.getD position 0#w =
      math.normalize (math.weightAt logits position) (math.weightSum logits top) := by
  have hwidth := laws.width.1
  have hvalue : (rowMax lanes logits).value = top := rowMax_value (by omega) hmem htop
  have hstatus : validateRow logits.length out.length false =
      { processed := scalarSatU32 out.length } := by
    rw [validateRow, if_neg (not_not.mpr hsize), if_neg (by decide),
      if_neg (Nat.ne_zero_of_lt h)]
  rw [softmaxApprox, hstatus, if_neg (by simp [RowStatus.ok])]
  dsimp only
  rw [hvalue, if_neg (weightSum_ne_zero laws hmem),
    math.getD_storeRounds _ _ _ _ _ (hsize ▸ h) (chunk_lt_chunks h), weightAt, hvalue]

end Lawful

/-! ### The order of a row -/

/-- The weights and the outputs of a row, and the scalar weights, are ordered as the logits are. -/
def KeepsOrder (math : RowMath w W lanes) (scalarExpNeg : BitVec 64 → Option (BitVec w))
    (logits out : List (BitVec w)) : Prop :=
  let top := (rowMax lanes logits).value
  let row := (math.softmaxApprox logits out false).2
  ∀ i j, ∀ (hi : i < logits.length) (hj : j < logits.length),
    logits[j].toInt ≤ logits[i].toInt →
      ((math.weightAt logits j).toInt ≤ (math.weightAt logits i).toInt ∧
        (row.getD j 0#w).toInt ≤ (row.getD i 0#w).toInt) ∧
      ∃ low high, scalarExpNeg ((math.subSat logits[j] top).signExtend 64) = some low ∧
        scalarExpNeg ((math.subSat logits[i] top).signExtend 64) = some high ∧
        low.toInt ≤ high.toInt

/-- The depths below the greatest logit keep their order when the shift has folded them. -/
def FoldsInOrder (logits : List (BitVec w)) : Prop :=
  ∀ top ∈ logits, (∀ logit ∈ logits, logit.toInt ≤ top.toInt) →
    ∀ high ∈ logits, ∀ low ∈ logits, low.toInt ≤ high.toInt →
      foldedDepth w (depthBelow w top high) ≤ foldedDepth w (depthBelow w top low)

/-- Logits within one unit of each other are not folded. -/
theorem foldsInOrder_of_within (hw : 5 ≤ w) {logits : List (BitVec w)}
    (h : ∀ top ∈ logits, ∀ logit ∈ logits, top.toInt - logit.toInt ≤ (2 ^ (w - 5) : ℕ)) :
    FoldsInOrder logits := by
  have hless : 2 ^ (w - 5) < 2 ^ (w - 4) := Nat.pow_lt_pow_right (by decide) (by omega)
  have hsame : ∀ top ∈ logits, ∀ logit ∈ logits,
      foldedDepth w (depthBelow w top logit) = depthBelow w top logit := by
    intro top htop logit hlogit
    have hunit := h top htop logit hlogit
    have hdepth : depthBelow w top logit ≤ 2 ^ (w - 5) := by
      rw [depthBelow]
      exact (min_le_left _ _).trans (Int.toNat_le.mpr hunit)
    rw [foldedDepth, Nat.mod_eq_of_lt (lt_of_le_of_lt hdepth hless), if_pos hdepth]
  intro top htop _ high hhigh low hlow hle
  rw [hsame top htop high hhigh, hsame top htop low hlow, depthBelow, depthBelow]
  exact min_le_min (Int.toNat_le_toNat (by omega)) le_rfl

/-- Some value of a row is the greatest. -/
theorem exists_greatest {logits : List (BitVec w)} (h : logits ≠ []) :
    ∃ top ∈ logits, ∀ logit ∈ logits, logit.toInt ≤ top.toInt := by
  induction logits with
  | nil => exact absurd rfl h
  | cons first rest ih =>
      rcases List.eq_nil_or_concat rest with rfl | hrest
      · exact ⟨first, by simp, by simp⟩
      · have hne : rest ≠ [] := by
          obtain ⟨init, last, rfl⟩ := hrest
          simp
        obtain ⟨top, hmem, htop⟩ := ih hne
        rcases le_or_gt first.toInt top.toInt with hle | hgt
        · refine ⟨top, List.mem_cons_of_mem _ hmem, fun logit hlogit => ?_⟩
          rcases List.mem_cons.mp hlogit with rfl | hin
          · exact hle
          · exact htop _ hin
        · refine ⟨first, List.mem_cons_self, fun logit hlogit => ?_⟩
          rcases List.mem_cons.mp hlogit with rfl | hin
          · exact le_rfl
          · exact (htop _ hin).trans hgt.le

/-- **A row keeps the order of its logits exactly where the shift does.** -/
theorem keepsOrder_iff {math : RowMath w W lanes} {cs : List ℤ} (laws : math.Laws cs)
    {scalarExpNeg : BitVec 64 → Option (BitVec w)}
    (hscalar : ∀ low high : BitVec 64, low.toInt ≤ high.toInt → high.toInt ≤ 0 →
      ∃ lowWeight highWeight, scalarExpNeg low = some lowWeight ∧
        scalarExpNeg high = some highWeight ∧ lowWeight.toInt ≤ highWeight.toInt)
    (hw : w ≤ 64) {logits out : List (BitVec w)} (hsize : logits.length = out.length) :
    KeepsOrder math scalarExpNeg logits out ↔ FoldsInOrder logits := by
  have hwidth := laws.width.1
  constructor
  · intro hkeeps top hmem htop high hhigh low hlow hle
    have hvalue : (rowMax lanes logits).value = top := rowMax_value (by omega) hmem htop
    obtain ⟨i, hi, rfl⟩ := List.getElem_of_mem hhigh
    obtain ⟨j, hj, rfl⟩ := List.getElem_of_mem hlow
    have hweights := (hkeeps i j hi hj hle).1.1
    rw [math.weightAt_eq hi, math.weightAt_eq hj, hvalue] at hweights
    exact (weight_le_iff laws (htop _ hlow) (htop _ hhigh)).mp hweights
  · intro hfolds
    show ∀ i j, ∀ (hi : i < logits.length) (hj : j < logits.length), _ → _
    intro i j hi hj hle
    obtain ⟨top, hmem, htop⟩ := exists_greatest (List.ne_nil_of_length_pos (Nat.zero_lt_of_lt hi))
    have hvalue : (rowMax lanes logits).value = top := rowMax_value (by omega) hmem htop
    have htopI := htop _ (List.getElem_mem hi)
    have htopJ := htop _ (List.getElem_mem hj)
    have hweights : (math.weightAt logits j).toInt ≤ (math.weightAt logits i).toInt := by
      rw [math.weightAt_eq hi, math.weightAt_eq hj, hvalue]
      exact (weight_le_iff laws htopJ htopI).mpr
        (hfolds top hmem htop _ (List.getElem_mem hi) _ (List.getElem_mem hj) hle)
    have hpos : 0 ≤ (math.weightAt logits j).toInt := by
      rw [math.weightAt_eq hj, hvalue]
      exact (weight_pos laws htopJ).le
    refine ⟨⟨hweights, ?_⟩, ?_⟩
    · rw [getD_softmaxApprox laws hmem htop hsize hi, getD_softmaxApprox laws hmem htop hsize hj]
      exact laws.normalize (weightSum_ne_zero laws hmem) hpos hweights
    · have hdiff : ∀ {logit : BitVec w}, logit.toInt ≤ top.toInt →
          ((math.subSat logit top).signExtend 64).toInt = clampTo w (logit.toInt - top.toInt) := by
        intro logit _
        rw [BitVec.toInt_signExtend_of_le hw, laws.subSat]
      rw [hvalue]
      apply hscalar <;> rw [hdiff htopI]
      · rw [hdiff htopJ]
        exact clampTo_mono (by omega)
      · have hhighest := highest_nonneg w
        have hlowest := lowest_nonpos w
        exact max_le hlowest ((min_le_left _ _).trans (by omega))

end RowMath

/-! ### The two widths -/

namespace Math64

theorem toInt_subSat (lhs rhs : BitVec 64) :
    (subSat lhs rhs).toInt = clampTo 64 (lhs.toInt - rhs.toInt) := by
  rw [subSat, toInt_clampI128x2ToI64x, toInt_widen_sub (by decide) (by decide)]

theorem toInt_normalizeWeights {weights : BitVec 64} {denominator : BitVec 128}
    (hne : denominator ≠ 0#128) (h : 0 ≤ weights.toInt) :
    (normalizeWeights weights denominator).toInt =
      clampTo 64 (weights.toInt.toNat * 2 ^ 63 / denominator.toNat : ℕ) := by
  obtain ⟨hnumerator, hbelow⟩ := toNat_numerator (W := 128) (by decide) rfl h
  have hpos : 0 < denominator.toNat :=
    Nat.pos_of_ne_zero fun hzero => hne (BitVec.eq_of_toNat_eq hzero)
  have hquotient := toNat_unsignedDiv (W := 128) (n := 127) (by decide)
    (hnumerator ▸ hbelow) hpos
  rw [hnumerator] at hquotient
  apply toInt_of_toNat_min (by decide)
  rw [normalizeWeights, unsignedDiv128, select_gtUnsigned, toNat_setWidth_select _ _ (by decide)]
  exact congrArg (Min.min · (2 ^ 63 - 1)) hquotient

theorem toNat_satAdd (lhs rhs : BitVec 128) :
    (satAdd lhs rhs).toNat = Min.min (lhs.toNat + rhs.toNat) (2 ^ 128 - 1) := by
  have hlhs := lhs.isLt
  have hrhs := rhs.isLt
  simp only [satAdd, BitVec.lt_def, BitVec.toNat_add]
  split_ifs with hover
  · rw [BitVec.toNat_allOnes]
    omega
  · rw [BitVec.toNat_add]
    omega

theorem rowMath_laws : rowMath.Laws expCs where
  width := by decide
  subSat := toInt_subSat
  expNeg := fun _ h => toInt_expNeg (by decide) (fun _ => toInt_exp2) h
  falls := expCurve_lt
  normalize := by
    intro lower higher denominator hne hpos hle
    show (normalizeWeights lower denominator).toInt ≤ (normalizeWeights higher denominator).toInt
    rw [toInt_normalizeWeights hne hpos, toInt_normalizeWeights hne (hpos.trans hle)]
    apply clampTo_mono
    exact_mod_cast Nat.div_le_div_right (Nat.mul_le_mul_right _ (Int.toNat_le_toNat hle))
  satAdd := toNat_satAdd

theorem scalarExpNeg_ordered {low high : BitVec 64} (hle : low.toInt ≤ high.toInt)
    (hhigh : high.toInt ≤ 0) :
    ∃ lowWeight highWeight, scalarExpNeg low = some lowWeight ∧
      scalarExpNeg high = some highWeight ∧ lowWeight.toInt ≤ highWeight.toInt := by
  obtain ⟨lowWeight, hlowSome, hlowInt⟩ := scalarExpNeg_eq (w := 64)
    (by decide) (by decide) 831657068615270144 (by decide) (fun _ => scalarExp2_of_nonpos)
    (hle.trans hhigh)
  obtain ⟨highWeight, hhighSome, hhighInt⟩ := scalarExpNeg_eq (w := 64)
    (by decide) (by decide) 831657068615270144 (by decide)
    (fun _ => scalarExp2_of_nonpos) hhigh
  refine ⟨lowWeight, highWeight, hlowSome, hhighSome, ?_⟩
  rw [hlowInt, hhighInt]
  apply scalarCurve_anti (by decide) expCurve_lt
  apply Nat.div_le_div_right
  apply Nat.mul_le_mul_right
  omega

end Math64

namespace Math32

theorem toInt_subSat (lhs rhs : BitVec 32) :
    (subSat lhs rhs).toInt = clampTo 32 (lhs.toInt - rhs.toInt) := by
  rw [subSat, toInt_clampWideToI32x, toInt_widen_sub (by decide) (by decide)]

theorem toInt_normalizeWeights {weights : BitVec 32} {denominator : BitVec 64}
    (hne : denominator ≠ 0#64) (h : 0 ≤ weights.toInt) :
    (normalizeWeights weights denominator).toInt =
      clampTo 32 (weights.toInt.toNat * 2 ^ 31 / denominator.toNat : ℕ) := by
  obtain ⟨hnumerator, hbelow⟩ := toNat_numerator (W := 64) (by decide) rfl h
  have hpos : 0 < denominator.toNat :=
    Nat.pos_of_ne_zero fun hzero => hne (BitVec.eq_of_toNat_eq hzero)
  have hquotient := toNat_unsignedDiv (W := 64) (n := 63) (by decide)
    (hnumerator ▸ hbelow) hpos
  rw [hnumerator] at hquotient
  apply toInt_of_toNat_min (by decide)
  rw [normalizeWeights, clampU64x4ToI32x, min64, toNat_setWidth_select _ _ (by decide)]
  exact congrArg (min · (2 ^ 31 - 1)) hquotient

theorem toNat_scalarSatAdd (lhs rhs : BitVec 64) :
    (scalarSatAdd lhs rhs).toNat = min (lhs.toNat + rhs.toNat) (2 ^ 64 - 1) := by
  have hlhs := lhs.isLt
  have hrhs := rhs.isLt
  have hones : (BitVec.allOnes 64).toNat = 2 ^ 64 - 1 := BitVec.toNat_allOnes
  have hrest : (BitVec.allOnes 64 - rhs).toNat = 2 ^ 64 - 1 - rhs.toNat := by
    rw [toNat_sub_of_le] <;> rw [hones]
    omega
  simp only [scalarSatAdd, gt_iff_lt, BitVec.lt_def, hrest]
  split_ifs with hover
  · rw [hones]
    omega
  · rw [Word.toNat_add_of_lt] <;> omega

theorem rowMath_laws : rowMath.Laws expCs where
  width := by decide
  subSat := toInt_subSat
  expNeg := fun _ h => toInt_expNeg (by decide) (fun _ => toInt_exp2) h
  falls := expCurve_lt
  normalize := by
    intro lower higher denominator hne hpos hle
    show (normalizeWeights lower denominator).toInt ≤ (normalizeWeights higher denominator).toInt
    rw [toInt_normalizeWeights hne hpos, toInt_normalizeWeights hne (hpos.trans hle)]
    apply clampTo_mono
    exact_mod_cast Nat.div_le_div_right (Nat.mul_le_mul_right _ (Int.toNat_le_toNat hle))
  satAdd := toNat_scalarSatAdd

theorem scalarExpNeg_ordered {low high : BitVec 64} (hle : low.toInt ≤ high.toInt)
    (hhigh : high.toInt ≤ 0) :
    ∃ lowWeight highWeight, scalarExpNeg low = some lowWeight ∧
      scalarExpNeg high = some highWeight ∧ lowWeight.toInt ≤ highWeight.toInt := by
  obtain ⟨lowWeight, hlowSome, hlowInt⟩ := scalarExpNeg_eq (w := 32)
    (by decide) (by decide) 193635251 (by decide) (fun _ => scalarExp2_of_nonpos) (hle.trans hhigh)
  obtain ⟨highWeight, hhighSome, hhighInt⟩ := scalarExpNeg_eq (w := 32)
    (by decide) (by decide) 193635251 (by decide) (fun _ => scalarExp2_of_nonpos) hhigh
  refine ⟨lowWeight, highWeight, hlowSome, hhighSome, ?_⟩
  rw [hlowInt, hhighInt]
  apply scalarCurve_anti (by decide) expCurve_lt
  apply Nat.div_le_div_right
  apply Nat.mul_le_mul_right
  omega

end Math32

/-! ### Rows of both widths -/

open RowMath

/-- **Softmax keeps the order of a row exactly where the shift does**, in the lanes of both
widths; the scalar weights keep it everywhere. -/
theorem softmax_keepsOrder_iff (logits out : List (BitVec 64)) (logits' out' : List (BitVec 32))
    (low high : BitVec 64) :
    (logits.length = out.length →
      (KeepsOrder Math64.rowMath Math64.scalarExpNeg logits out ↔ FoldsInOrder logits)) ∧
    (logits'.length = out'.length →
      (KeepsOrder Math32.rowMath Math32.scalarExpNeg logits' out' ↔ FoldsInOrder logits')) ∧
    (low.toInt ≤ high.toInt → high.toInt ≤ 0 →
      (∃ lowWeight highWeight, Math64.scalarExpNeg low = some lowWeight ∧
        Math64.scalarExpNeg high = some highWeight ∧ lowWeight.toInt ≤ highWeight.toInt) ∧
      ∃ lowWeight highWeight, Math32.scalarExpNeg low = some lowWeight ∧
        Math32.scalarExpNeg high = some highWeight ∧ lowWeight.toInt ≤ highWeight.toInt) :=
  ⟨keepsOrder_iff Math64.rowMath_laws (fun _ _ => Math64.scalarExpNeg_ordered) (by decide),
    keepsOrder_iff Math32.rowMath_laws (fun _ _ => Math32.scalarExpNeg_ordered) (by decide),
    fun hle hhigh =>
      ⟨Math64.scalarExpNeg_ordered hle hhigh, Math32.scalarExpNeg_ordered hle hhigh⟩⟩

/-- A row of two logits within one unit. -/
theorem softmax_keepsOrder_pair :
    KeepsOrder Math64.rowMath Math64.scalarExpNeg [0, -288230376151711744] [0, 0] :=
  ((softmax_keepsOrder_iff [0, -288230376151711744] [0, 0] [] [] 0 0).1 rfl).mpr
    (foldsInOrder_of_within (by decide) (by simp))

/-- A logit two units below the greatest one weighs as much as that, and more than the one
between them. -/
theorem softmax_twoUnits :
    (Math64.rowMath.weightAt [0, -288230376151711744, -1152921504606846976] 1).toInt <
        (Math64.rowMath.weightAt [0, -288230376151711744, -1152921504606846976] 2).toInt ∧
      ((Math64.rowMath.softmaxApprox [0, -288230376151711744, -1152921504606846976]
          [0, 0, 0] false).2.getD 1 0).toInt <
        ((Math64.rowMath.softmaxApprox [0, -288230376151711744, -1152921504606846976]
          [0, 0, 0] false).2.getD 2 0).toInt ∧
      (Math32.rowMath.weightAt [0, -67108864, -268435456] 1).toInt <
        (Math32.rowMath.weightAt [0, -67108864, -268435456] 2).toInt := by
  set_option maxRecDepth 4000 in
  decide

end RunD
