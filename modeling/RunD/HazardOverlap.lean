/-
Two footprints overlap when they share a byte.

The search goes over the few differences of starts at which two elements meet,
and for each of them solves a linear equation exactly: over the elements of a
small footprint one by one, or, for two large ones, by the coefficients of the
greatest common divisor (`boundedSolution_spec`).  An overlap that is the whole
of a footprint means that the other one takes it in (`takes_in_of_whole`).
-/
import Mathlib.RingTheory.Coprime.Lemmas
import Mathlib.Tactic.LinearCombination
import Mathlib.Tactic.Ring
import RunD.HazardModel

namespace RunD.Hazard

/-! ### Footprints as sets of bytes -/

namespace PhysicalAccess

/-- The start of an element. -/
def start (access : PhysicalAccess) (index : Nat) : Nat :=
  access.offset.toNat + index * access.strideBytes.toNat

/-- A byte of an element. -/
def Touches (access : PhysicalAccess) (byte : Nat) : Prop :=
  ∃ index < access.elementCount.toNat,
    access.start index ≤ byte ∧ byte < access.start index + access.elementBytes.toNat

/-- What every placed access is. -/
structure Placed (access : PhysicalAccess) : Prop where
  bytes_pos : 0 < access.elementBytes.toNat
  bytes_le : access.elementBytes.toNat ≤ 8
  count_pos : 0 < access.elementCount.toNat
  stride : access.elementBytes.toNat ≤ access.strideBytes.toNat
  ends : access.envelopeEnd.toNat =
    access.start (access.elementCount.toNat - 1) + access.elementBytes.toNat

/-- Two accesses share a byte of a group. -/
def Meets (left right : PhysicalAccess) : Prop :=
  left.aliasGroup = right.aliasGroup ∧ ∃ byte, left.Touches byte ∧ right.Touches byte

end PhysicalAccess

open PhysicalAccess

section Footprints

variable {access left right : PhysicalAccess}

theorem start_le_last (hplaced : access.Placed) {index : Nat}
    (hindex : index < access.elementCount.toNat) :
    access.start index + access.elementBytes.toNat ≤ access.envelopeEnd.toNat := by
  rw [hplaced.ends, start, start]
  have hmul : index * access.strideBytes.toNat ≤
      (access.elementCount.toNat - 1) * access.strideBytes.toNat :=
    Nat.mul_le_mul_right _ (by omega)
  omega

theorem PhysicalAccess.Placed.inside (hplaced : access.Placed) {byte : Nat} (h : access.Touches byte) :
    access.offset.toNat ≤ byte ∧ byte < access.envelopeEnd.toNat := by
  obtain ⟨index, hindex, hlow, hhigh⟩ := h
  have hlast := start_le_last hplaced hindex
  rw [start] at hlow
  omega

theorem PhysicalAccess.Placed.offset_lt (hplaced : access.Placed) :
    access.offset.toNat < access.envelopeEnd.toNat := by
  have hpos := hplaced.bytes_pos
  have hlast := start_le_last hplaced hplaced.count_pos
  rw [start] at hlast
  omega

/-- A footprint without gaps is all of its envelope. -/
theorem PhysicalAccess.Placed.touches_of_contiguous (hplaced : access.Placed)
    (hcontiguous : access.strideBytes = access.elementBytes) {byte : Nat}
    (hlow : access.offset.toNat ≤ byte) (hhigh : byte < access.envelopeEnd.toNat) :
    access.Touches byte := by
  have hpos := hplaced.bytes_pos
  have hends := hplaced.ends
  rw [start, hcontiguous] at hends
  have hsplit := Nat.div_add_mod (byte - access.offset.toNat) access.elementBytes.toNat
  have hmod := Nat.mod_lt (byte - access.offset.toNat) hpos
  rw [Nat.mul_comm] at hsplit
  refine ⟨(byte - access.offset.toNat) / access.elementBytes.toNat, ?_, ?_, ?_⟩
  · rw [Nat.div_lt_iff_lt_mul hpos]
    have hcount : access.elementCount.toNat =
        access.elementCount.toNat - 1 + 1 := (Nat.sub_add_cancel hplaced.count_pos).symm
    rw [hcount, Nat.add_mul, Nat.one_mul]
    omega
  · rw [start, hcontiguous]
    omega
  · rw [start, hcontiguous]
    omega

/-- Two footprints share a byte when two of their elements do. -/
theorem shares_iff (hleft : left.Placed) (hright : right.Placed) :
    (∃ byte, left.Touches byte ∧ right.Touches byte) ↔
      ∃ first < left.elementCount.toNat, ∃ second < right.elementCount.toNat,
        left.start first < right.start second + right.elementBytes.toNat ∧
          right.start second < left.start first + left.elementBytes.toNat := by
  have hpos := hleft.bytes_pos
  have hpos' := hright.bytes_pos
  constructor
  · rintro ⟨byte, ⟨first, hfirst, hlow, hhigh⟩, ⟨second, hsecond, hlow', hhigh'⟩⟩
    exact ⟨first, hfirst, second, hsecond, by omega, by omega⟩
  · rintro ⟨first, hfirst, second, hsecond, hlow, hhigh⟩
    exact ⟨max (left.start first) (right.start second), ⟨first, hfirst, by omega, by omega⟩,
      ⟨second, hsecond, by omega, by omega⟩⟩

end Footprints

/-! ### Division of signed words -/

theorem floorDiv_eq {value divisor : Int} (hpos : 0 < divisor) :
    floorDiv value divisor = value / divisor := by
  rw [floorDiv, Int.tmod_eq_emod, Int.tdiv_eq_ediv]
  have hnonneg := Int.emod_nonneg value (Int.ne_of_gt hpos)
  have hlt := Int.emod_lt_of_pos value hpos
  by_cases hexact : 0 ≤ value ∨ divisor ∣ value
  · rw [if_pos hexact, if_pos hexact, if_neg (by omega), Int.add_zero]
  · rw [if_neg hexact, if_neg hexact, if_pos (by omega), Int.sign_eq_one_of_pos hpos,
      Int.add_sub_cancel]

theorem le_floorDiv_iff {value divisor bound : Int} (hpos : 0 < divisor) :
    bound ≤ floorDiv value divisor ↔ bound * divisor ≤ value := by
  rw [floorDiv_eq hpos, Int.le_ediv_iff_mul_le hpos]

theorem ceilDiv_le_iff {value divisor bound : Int} (hpos : 0 < divisor) :
    ceilDiv value divisor ≤ bound ↔ value ≤ bound * divisor := by
  have hfloor : -bound ≤ floorDiv (-value) divisor ↔ -bound * divisor ≤ -value :=
    le_floorDiv_iff hpos
  rw [Int.neg_mul] at hfloor
  rw [ceilDiv]
  omega

/-! ### Common divisors -/

/-- The loop keeps what its two remainders are of the two words. -/
theorem bezoutLoop_spec {first second : Int} {left right : Nat}
    {oldLeft nextLeft oldRight nextRight : Int}
    (hleft : (left : Int) = oldLeft * first + oldRight * second)
    (hright : (right : Int) = nextLeft * first + nextRight * second) :
    (bezoutLoop left right oldLeft nextLeft oldRight nextRight).gcd = Nat.gcd left right ∧
      ((bezoutLoop left right oldLeft nextLeft oldRight nextRight).gcd : Int) =
        (bezoutLoop left right oldLeft nextLeft oldRight nextRight).left * first +
          (bezoutLoop left right oldLeft nextLeft oldRight nextRight).right * second := by
  induction right using Nat.strongRecOn generalizing left oldLeft nextLeft oldRight nextRight with
  | ind right ih =>
      rw [bezoutLoop]
      by_cases hzero : right = 0
      · rw [dif_pos hzero]
        subst hzero
        exact ⟨(Nat.gcd_zero_right left).symm, hleft⟩
      · rw [dif_neg hzero]
        have hrest : ((left % right : Nat) : Int) =
            (oldLeft - (left / right : Nat) * nextLeft) * first +
              (oldRight - (left / right : Nat) * nextRight) * second := by
          have hsplit : (left : Int) = right * (left / right : Nat) + (left % right : Nat) := by
            exact_mod_cast (Nat.div_add_mod left right).symm
          have hmod : ((left % right : Nat) : Int) = left - right * (left / right : Nat) := by
            omega
          rw [hmod, hleft, hright]
          ring
        obtain ⟨hgcd, hsum⟩ :=
          ih (left % right) (Nat.mod_lt left (Nat.pos_of_ne_zero hzero)) hright hrest
        refine ⟨?_, hsum⟩
        rw [hgcd, Nat.gcd_comm, ← Nat.gcd_rec, Nat.gcd_comm]

theorem bezout_spec (left right : UInt64) :
    (bezout left right).gcd = Nat.gcd left.toNat right.toNat ∧
      ((bezout left right).gcd : Int) =
        (bezout left right).left * left.toNat + (bezout left right).right * right.toNat := by
  refine bezoutLoop_spec ?_ ?_
  · ring
  · ring

/-- The solutions of a linear equation in two unknowns are a step apart. -/
theorem solution_steps {left right gcd leftStep rightStep : Int} (hgcd : gcd ≠ 0)
    (hleft : left = gcd * rightStep) (hright : right = gcd * leftStep)
    (hcoprime : IsCoprime leftStep rightStep) (hstep : leftStep ≠ 0) {x y x₀ y₀ : Int}
    (h : x * left - y * right = x₀ * left - y₀ * right) :
    ∃ turns, x = x₀ + leftStep * turns ∧ y = y₀ + rightStep * turns := by
  have hsame : (x - x₀) * rightStep = (y - y₀) * leftStep := by
    apply mul_left_cancel₀ hgcd
    rw [hleft, hright] at h
    linear_combination h
  have hdvd : leftStep ∣ x - x₀ :=
    hcoprime.dvd_of_dvd_mul_right (Dvd.intro_left _ hsame.symm)
  obtain ⟨turns, hturns⟩ := hdvd
  have hother : y - y₀ = rightStep * turns := by
    apply mul_left_cancel₀ hstep
    rw [hturns] at hsame
    linear_combination -hsame
  exact ⟨turns, by omega, by omega⟩

/-- What the steps of two strides are: the strides without their greatest common divisor, each
for the index of the other. -/
structure Steps (left right : UInt64) (gcd : Nat) (leftStep rightStep : Int) : Prop where
  gcd_pos : 0 < gcd
  left_eq : (left.toNat : Int) = gcd * rightStep
  right_eq : (right.toNat : Int) = gcd * leftStep
  left_pos : 0 < leftStep
  right_pos : 0 < rightStep
  coprime : IsCoprime leftStep rightStep

theorem steps_of {left right : UInt64} (hleft : 0 < left.toNat) (hright : 0 < right.toNat) :
    Steps left right (bezout left right).gcd ((right.toNat / (bezout left right).gcd : Nat) : Int)
      ((left.toNat / (bezout left right).gcd : Nat) : Int) := by
  rw [(bezout_spec left right).1]
  have hpos := Nat.gcd_pos_of_pos_left right.toNat hleft
  refine ⟨hpos, ?_, ?_, ?_, ?_, ?_⟩
  · exact_mod_cast (Nat.mul_div_cancel' (Nat.gcd_dvd_left left.toNat right.toNat)).symm
  · exact_mod_cast (Nat.mul_div_cancel' (Nat.gcd_dvd_right left.toNat right.toNat)).symm
  · exact_mod_cast Nat.div_gcd_pos_of_pos_right _ hright
  · exact_mod_cast Nat.div_gcd_pos_of_pos_left _ hleft
  · rw [Nat.isCoprime_iff_coprime]
    exact (Nat.coprime_div_gcd_div_gcd hpos).symm

/-! ### Solutions in range -/

/-- Indices in range whose elements are a target apart. -/
structure Solves (leftStride leftCount rightStride rightCount : UInt64) (target : Int)
    (left right : Nat) : Prop where
  left_lt : left < leftCount.toNat
  right_lt : right < rightCount.toNat
  apart : (left : Int) * leftStride.toNat - right * rightStride.toNat = target

section Bounded

variable {leftStride leftCount rightStride rightCount : UInt64} {target : Int}

/-- The turns that keep both indices in range are those between the two bounds. -/
theorem turns_inRange {first step turns : Int} {count : UInt64} (hstep : 0 < step)
    (hcount : 0 < count.toNat) :
    (0 ≤ first + step * turns ∧ first + step * turns < count.toNat) ↔
      ceilDiv (-first) step ≤ turns ∧ turns ≤ floorDiv (signed (count - 1) - first) step := by
  rw [ceilDiv_le_iff hstep, le_floorDiv_iff hstep]
  have hlast : signed (count - 1) = (count.toNat : Int) - 1 := by
    have hone : (1 : UInt64) ≤ count := UInt64.le_iff_toNat_le.mpr hcount
    rw [signed, UInt64.toNat_sub_of_le _ _ hone, UInt64.toNat_one]
    omega
  rw [hlast, Int.mul_comm step turns]
  omega

/-- The equation is solved when it can be, and by indices in range. -/
theorem boundedSolution_spec (hleft : 0 < leftStride.toNat) (hright : 0 < rightStride.toNat)
    (hleftCount : 0 < leftCount.toNat) (hrightCount : 0 < rightCount.toNat) :
    (∀ indices, boundedSolution leftStride leftCount rightStride rightCount target = some indices →
      Solves leftStride leftCount rightStride rightCount target indices.1.toNat
        indices.2.toNat) ∧
    (∀ x y, Solves leftStride leftCount rightStride rightCount target x y →
      (boundedSolution leftStride leftCount rightStride rightCount target).isSome) := by
  have hsum := (bezout_spec leftStride rightStride).2
  have hsteps := steps_of hleft hright
  unfold boundedSolution
  simp only
  generalize bezout leftStride rightStride = coefficients at *
  generalize ((rightStride.toNat / coefficients.gcd : Nat) : Int) = leftStep at *
  generalize ((leftStride.toNat / coefficients.gcd : Nat) : Int) = rightStep at *
  have hgcd : coefficients.gcd ≠ 0 := Nat.pos_iff_ne_zero.mp hsteps.gcd_pos
  have hgcd' : (coefficients.gcd : Int) ≠ 0 := by exact_mod_cast hgcd
  by_cases hdvd : (coefficients.gcd : Int) ∣ target
  · obtain ⟨scale, hscale⟩ := hdvd
    have hmod : target.tmod coefficients.gcd = 0 := by
      rw [hscale]
      exact Int.mul_tmod_right _ _
    have hdiv : target.tdiv coefficients.gcd = scale := by
      rw [hscale]
      exact Int.mul_tdiv_cancel_left _ hgcd'
    rw [if_neg (by simp [hgcd, hmod]), hdiv]
    -- one solution, out of range perhaps
    have hfirst : coefficients.left * scale * leftStride.toNat -
        -coefficients.right * scale * rightStride.toNat = target := by
      rw [hscale]
      linear_combination -scale * hsum
    generalize coefficients.left * scale = firstLeft at *
    generalize -coefficients.right * scale = firstRight at *
    have hall : ∀ turns : Int, (firstLeft + leftStep * turns) * leftStride.toNat -
        (firstRight + rightStep * turns) * rightStride.toNat = target := by
      intro turns
      rw [← hfirst, hsteps.left_eq, hsteps.right_eq]
      ring
    have hinLeft : ∀ turns, _ := fun turns =>
      @turns_inRange firstLeft leftStep turns leftCount hsteps.left_pos hleftCount
    have hinRight : ∀ turns, _ := fun turns =>
      @turns_inRange firstRight rightStep turns rightCount hsteps.right_pos hrightCount
    constructor
    · intro indices hsome
      split at hsome
      · exact absurd hsome (by simp)
      · rename_i hbounds
        split at hsome
        · exact absurd hsome (by simp)
        · rename_i hrange
          generalize max (ceilDiv (-firstLeft) leftStep) (ceilDiv (-firstRight) rightStep) =
            lower at *
          obtain rfl := Option.some.inj hsome
          simp only [not_or, signed] at hrange
          have hsolved := hall lower
          generalize firstLeft + leftStep * lower = x at *
          generalize firstRight + rightStep * lower = y at *
          have hwordLeft := leftCount.toNat_lt
          have hwordRight := rightCount.toNat_lt
          have hx : (UInt64.ofNat x.toNat).toNat = x.toNat :=
            UInt64.toNat_ofNat_of_lt' (by show _ < 18446744073709551616; omega)
          have hy : (UInt64.ofNat y.toNat).toNat = y.toNat :=
            UInt64.toNat_ofNat_of_lt' (by show _ < 18446744073709551616; omega)
          refine ⟨?_, ?_, ?_⟩
          · rw [hx]
            omega
          · rw [hy]
            omega
          · rw [hx, hy, Int.toNat_of_nonneg (by omega), Int.toNat_of_nonneg (by omega)]
            exact hsolved
    · intro x y hsolves
      obtain ⟨turns, hx, hy⟩ := solution_steps hgcd' hsteps.left_eq hsteps.right_eq
        hsteps.coprime (Int.ne_of_gt hsteps.left_pos) (hsolves.apart.trans hfirst.symm)
      have hleftTurns := (hinLeft turns).mp (by have := hsolves.left_lt; omega)
      have hrightTurns := (hinRight turns).mp (by have := hsolves.right_lt; omega)
      have hlower := max_le hleftTurns.1 hrightTurns.1
      have hupper := le_min hleftTurns.2 hrightTurns.2
      have hbounds := le_trans hlower hupper
      -- the least turn that keeps one index from falling under its start keeps both in range
      have hleftLeast := (hinLeft _).mpr ⟨le_max_left _ (ceilDiv (-firstRight) rightStep),
        le_trans hbounds (min_le_left _ _)⟩
      have hrightLeast := (hinRight _).mpr ⟨le_max_right (ceilDiv (-firstLeft) leftStep) _,
        le_trans hbounds (min_le_right _ _)⟩
      rw [if_neg (by omega), if_neg (by simp only [signed]; omega)]
      rfl
  · have hmod : target.tmod coefficients.gcd ≠ 0 := by
      intro hzero
      exact hdvd (Int.dvd_of_tmod_eq_zero hzero)
    rw [if_pos (Or.inr hmod)]
    refine ⟨by simp, ?_⟩
    intro x y hsolves
    -- a solution makes the target a multiple of the divisor
    refine absurd ⟨x * rightStep - y * leftStep, ?_⟩ hdvd
    rw [← hsolves.apart, hsteps.left_eq, hsteps.right_eq]
    ring

end Bounded

/-! ### Elements whose starts differ by a given amount -/

/-- Elements in range whose starts differ by a given amount. -/
structure Apart (left right : PhysicalAccess) (delta : Int) (first second : Nat) : Prop where
  left_lt : first < left.elementCount.toNat
  right_lt : second < right.elementCount.toNat
  apart : (left.start first : Int) - right.start second = delta

theorem signed_start (access : PhysicalAccess) (index : Nat) :
    signed access.offset + index * signed access.strideBytes = access.start index := by
  rw [signed, signed, start]
  push_cast
  rfl

theorem PhysicalAccess.Placed.stride_pos {access : PhysicalAccess} (hplaced : access.Placed) :
    0 < access.strideBytes.toNat :=
  Nat.lt_of_lt_of_le hplaced.bytes_pos hplaced.stride

/-- An element is found exactly when it starts at the place asked for. -/
theorem elementAt_eq_some {large : PhysicalAccess} (hlarge : large.Placed) {place : Int}
    {index : Nat} :
    elementAt large place = some index ↔
      index < large.elementCount.toNat ∧ (large.start index : Int) = place := by
  have hstride : 0 < signed large.strideBytes := Int.natCast_pos.mpr hlarge.stride_pos
  have hcount : index < large.elementCount.toNat ↔ (index : Int) < signed large.elementCount :=
    Nat.cast_lt.symm
  unfold elementAt
  rw [← signed_start, hcount]
  generalize signed large.strideBytes = stride at *
  generalize signed large.offset = offset at *
  generalize signed large.elementCount = count at *
  simp only
  by_cases hbefore : place < offset
  · rw [if_pos hbefore]
    have hmul : 0 ≤ (index : Int) * stride := Int.mul_nonneg (by omega) (by omega)
    constructor
    · intro h
      exact absurd h (by simp)
    · rintro ⟨-, hplace⟩
      omega
  · rw [if_neg hbefore]
    by_cases hdvd : stride ∣ place - offset
    · obtain ⟨turns, hturns⟩ := hdvd
      have hnonneg : 0 ≤ turns := by
        by_contra hneg
        have := Int.mul_neg_of_pos_of_neg hstride (Int.not_le.mp hneg)
        omega
      rw [hturns, Int.mul_tmod_right, if_neg (by simp), Int.mul_tdiv_cancel_left _ (by omega)]
      have hsame : offset + index * stride = place ↔ (index : Int) = turns := by
        constructor
        · intro hplace
          apply mul_left_cancel₀ (Int.ne_of_gt hstride)
          rw [← hturns, ← hplace]
          ring
        · intro hindex
          rw [hindex, Int.mul_comm turns, ← hturns]
          omega
      rw [hsame]
      split
      · constructor
        · intro h
          exact absurd h (by simp)
        · rintro ⟨hlt, rfl⟩
          omega
      · rw [Option.some.injEq]
        omega
    · have hmod : (place - offset).tmod stride ≠ 0 := by
        intro hzero
        exact hdvd (Int.dvd_of_tmod_eq_zero hzero)
      rw [if_pos hmod]
      constructor
      · intro h
        exact absurd h (by simp)
      · rintro ⟨-, hplace⟩
        exact absurd ⟨index, by rw [← hplace]; ring⟩ hdvd

theorem toNat_ofNat_index {index : Nat} {count : UInt64} (h : index < count.toNat) :
    (UInt64.ofNat index).toNat = index :=
  UInt64.toNat_ofNat_of_lt' (Nat.lt_trans h count.toNat_lt)

/-- The elements of two footprints are found at a difference of starts, when there are any. -/
theorem enumeratedSolution_spec {left right : PhysicalAccess} (hleft : left.Placed)
    (hright : right.Placed) {delta : Int} :
    (∀ indices, enumeratedSolution left right delta true = some indices →
      Apart left right delta indices.1.toNat indices.2.toNat) ∧
    (∀ indices, enumeratedSolution right left delta false = some indices →
      Apart left right delta indices.1.toNat indices.2.toNat) ∧
    (∀ first second, Apart left right delta first second →
      (enumeratedSolution left right delta true).isSome ∧
        (enumeratedSolution right left delta false).isSome) := by
  refine ⟨?_, ?_, ?_⟩
  · intro indices hfound
    obtain ⟨first, hfirst, hat⟩ := List.exists_of_findSome?_eq_some hfound
    rw [List.mem_range] at hfirst
    rw [enumeratedAt, Option.map_eq_some_iff] at hat
    obtain ⟨second, hsecond, rfl⟩ := hat
    simp only [if_true, signed_start] at hsecond
    obtain ⟨hlt, hstart⟩ := (elementAt_eq_some hright).mp hsecond
    simp only [if_true]
    rw [toNat_ofNat_index hfirst, toNat_ofNat_index hlt]
    exact ⟨hfirst, hlt, by omega⟩
  · intro indices hfound
    obtain ⟨second, hsecond, hat⟩ := List.exists_of_findSome?_eq_some hfound
    rw [List.mem_range] at hsecond
    rw [enumeratedAt, Option.map_eq_some_iff] at hat
    obtain ⟨first, hfirst, rfl⟩ := hat
    simp only [Bool.false_eq_true, if_false, signed_start] at hfirst
    obtain ⟨hlt, hstart⟩ := (elementAt_eq_some hleft).mp hfirst
    simp only [Bool.false_eq_true, if_false]
    rw [toNat_ofNat_index hsecond, toNat_ofNat_index hlt]
    exact ⟨hlt, hsecond, by omega⟩
  · rintro first second ⟨hfirst, hsecond, hapart⟩
    constructor
    · apply List.findSome?_isSome_iff.mpr
      refine ⟨first, List.mem_range.mpr hfirst, ?_⟩
      have hat : elementAt right (left.start first - delta) = some second :=
        (elementAt_eq_some hright).mpr ⟨hsecond, by omega⟩
      simp [enumeratedAt, signed_start, hat]
    · apply List.findSome?_isSome_iff.mpr
      refine ⟨second, List.mem_range.mpr hsecond, ?_⟩
      have hat : elementAt left (right.start second + delta) = some first :=
        (elementAt_eq_some hleft).mpr ⟨hfirst, by omega⟩
      simp [enumeratedAt, signed_start, hat]

/-- **At every difference of starts, elements are found exactly when there are any.** -/
theorem solutionAt_spec {left right : PhysicalAccess} (hleft : left.Placed)
    (hright : right.Placed) {delta : Int} :
    (∀ indices, solutionAt left right delta = some indices →
      Apart left right delta indices.1.toNat indices.2.toNat) ∧
    (∀ first second, Apart left right delta first second →
      (solutionAt left right delta).isSome) := by
  obtain ⟨hsmallLeft, hsmallRight, hcomplete⟩ :=
    @enumeratedSolution_spec left right hleft hright delta
  unfold solutionAt
  split
  · split
    · exact ⟨hsmallLeft, fun first second h => (hcomplete first second h).1⟩
    · exact ⟨hsmallRight, fun first second h => (hcomplete first second h).2⟩
  · obtain ⟨hsound, hsolved⟩ :=
      @boundedSolution_spec left.strideBytes left.elementCount right.strideBytes
        right.elementCount (signed right.offset - signed left.offset + delta)
        hleft.stride_pos hright.stride_pos hleft.count_pos hright.count_pos
    have hapart : ∀ first second : Nat, ((first : Int) * left.strideBytes.toNat -
        second * right.strideBytes.toNat = signed right.offset - signed left.offset + delta) ↔
        (left.start first : Int) - right.start second = delta := by
      intro first second
      rw [← signed_start, ← signed_start, signed, signed, signed, signed]
      omega
    constructor
    · intro indices hfound
      have hsolves := hsound indices hfound
      exact ⟨hsolves.left_lt, hsolves.right_lt, (hapart _ _).mp hsolves.apart⟩
    · rintro first second ⟨hfirst, hsecond, h⟩
      exact hsolved first second ⟨hfirst, hsecond, (hapart _ _).mpr h⟩

/-! ### The search for an overlap -/

theorem mem_deltas {left right : PhysicalAccess} (hleft : left.Placed) (hright : right.Placed)
    {delta : Int} :
    delta ∈ deltas left right ↔
      -(left.elementBytes.toNat : Int) < delta ∧ delta < right.elementBytes.toNat := by
  have hpos := hleft.bytes_pos
  have hpos' := hright.bytes_pos
  simp only [deltas, List.mem_map, List.mem_range, signed]
  constructor
  · rintro ⟨turn, hturn, rfl⟩
    omega
  · rintro ⟨hlow, hhigh⟩
    exact ⟨(delta - 1 + left.elementBytes.toNat).toNat, by omega, by omega⟩

/-- The start of an element, in words. -/
theorem PhysicalAccess.Placed.start_toNat {access : PhysicalAccess} (hplaced : access.Placed)
    {index : UInt64} (h : index.toNat < access.elementCount.toNat) :
    (access.offset + index * access.strideBytes).toNat = access.start index.toNat := by
  have hlast := start_le_last hplaced h
  have hword := access.envelopeEnd.toNat_lt
  rw [start] at hlast ⊢
  rw [UInt64.toNat_add, UInt64.toNat_mul, Nat.mod_eq_of_lt (by omega : _ * _ < 2 ^ 64),
    Nat.mod_eq_of_lt (by omega)]

/-- The end of an element, in words. -/
theorem PhysicalAccess.Placed.end_toNat {access : PhysicalAccess} (hplaced : access.Placed)
    {index : UInt64} (h : index.toNat < access.elementCount.toNat) :
    (access.offset + index * access.strideBytes + access.elementBytes).toNat =
      access.start index.toNat + access.elementBytes.toNat := by
  have hlast := start_le_last hplaced h
  have hword := access.envelopeEnd.toNat_lt
  rw [UInt64.toNat_add, hplaced.start_toNat h, Nat.mod_eq_of_lt (by omega)]

section Search

variable {left right : PhysicalAccess} (hleft : left.Placed) (hright : right.Placed)

include hleft hright

theorem not_meets_of_apart (h : left.aliasGroup ≠ right.aliasGroup ∨
    left.offset ≥ right.envelopeEnd ∨ right.offset ≥ left.envelopeEnd) : ¬ left.Meets right := by
  rintro ⟨hgroup, byte, htouches, htouches'⟩
  obtain ⟨hlow, hhigh⟩ := hleft.inside htouches
  obtain ⟨hlow', hhigh'⟩ := hright.inside htouches'
  rcases h with h | h | h
  · exact h hgroup
  · rw [ge_iff_le, UInt64.le_iff_toNat_le] at h
    omega
  · rw [ge_iff_le, UInt64.le_iff_toNat_le] at h
    omega

/-- **An overlap is found exactly when two footprints share a byte.** -/
theorem findOverlap_isSome_iff : (findOverlap left right).isSome ↔ left.Meets right := by
  unfold findOverlap
  split
  · rename_i hapart
    exact iff_of_false (by simp) (not_meets_of_apart hleft hright hapart)
  · rename_i hnear
    simp only [not_or, not_not, ge_iff_le, UInt64.not_le, UInt64.lt_iff_toNat_lt] at hnear
    split
    · rename_i hcontiguous
      have hlt := hleft.offset_lt
      have hlt' := hright.offset_lt
      refine iff_of_true rfl ⟨hnear.1, max left.offset.toNat right.offset.toNat, ?_, ?_⟩
      · exact hleft.touches_of_contiguous hcontiguous.1 (by omega) (by omega)
      · exact hright.touches_of_contiguous hcontiguous.2 (by omega) (by omega)
    · obtain ⟨hsound, hcomplete⟩ : _ ∧ _ :=
        ⟨fun delta => (@solutionAt_spec left right hleft hright delta).1,
          fun delta => (@solutionAt_spec left right hleft hright delta).2⟩
      rw [List.findSome?_isSome_iff, Meets, shares_iff hleft hright]
      constructor
      · rintro ⟨delta, hdelta, hfound⟩
        rw [Option.isSome_map, Option.isSome_iff_exists] at hfound
        obtain ⟨indices, hindices⟩ := hfound
        obtain ⟨hfirst, hsecond, hapart⟩ := hsound delta indices hindices
        rw [mem_deltas hleft hright] at hdelta
        exact ⟨hnear.1, _, hfirst, _, hsecond, by omega, by omega⟩
      · rintro ⟨-, first, hfirst, second, hsecond, hlow, hhigh⟩
        refine ⟨(left.start first : Int) - right.start second, ?_, ?_⟩
        · rw [mem_deltas hleft hright]
          omega
        · rw [Option.isSome_map]
          exact hcomplete _ first second ⟨hfirst, hsecond, rfl⟩

/-- An overlap of footprints that are not both without gaps is what two elements share. -/
theorem overlap_inside {overlap : Overlap} (h : findOverlap left right = some overlap)
    (hgaps : ¬ (left.strideBytes = left.elementBytes ∧ right.strideBytes = right.elementBytes)) :
    overlap.first < overlap.last ∧
    (∃ first < left.elementCount.toNat, left.start first ≤ overlap.first.toNat ∧
      overlap.last.toNat ≤ left.start first + left.elementBytes.toNat) ∧
    ∃ second < right.elementCount.toNat, right.start second ≤ overlap.first.toNat ∧
      overlap.last.toNat ≤ right.start second + right.elementBytes.toNat := by
  unfold findOverlap at h
  split at h
  · exact absurd h (by simp)
  · obtain ⟨delta, hdelta, hat⟩ := List.exists_of_findSome?_eq_some h
    rw [Option.map_eq_some_iff] at hat
    obtain ⟨indices, hindices, rfl⟩ := hat
    have hapart := (solutionAt_spec hleft hright).1 indices hindices
    have hdifference := hapart.apart
    rw [mem_deltas hleft hright] at hdelta
    have hpos := hleft.bytes_pos
    have hpos' := hright.bytes_pos
    have hfirst : (sharedBytes left right indices).first.toNat =
        max (left.start indices.1.toNat) (right.start indices.2.toNat) := by
      rw [sharedBytes, toNat_max_word, hleft.start_toNat hapart.left_lt,
        hright.start_toNat hapart.right_lt]
    have hlast : (sharedBytes left right indices).last.toNat =
        min (left.start indices.1.toNat + left.elementBytes.toNat)
          (right.start indices.2.toNat + right.elementBytes.toNat) := by
      rw [sharedBytes, toNat_min_word, hleft.end_toNat hapart.left_lt,
        hright.end_toNat hapart.right_lt]
    refine ⟨?_, ⟨indices.1.toNat, hapart.left_lt, by omega, by omega⟩,
      indices.2.toNat, hapart.right_lt, by omega, by omega⟩
    rw [UInt64.lt_iff_toNat_lt]
    omega

/-- An overlap of footprints without gaps is that of their envelopes. -/
theorem overlap_of_contiguous {overlap : Overlap} (h : findOverlap left right = some overlap)
    (hgaps : left.strideBytes = left.elementBytes ∧ right.strideBytes = right.elementBytes) :
    overlap.first < overlap.last ∧
    overlap.first.toNat = max left.offset.toNat right.offset.toNat ∧
    overlap.last.toNat = min left.envelopeEnd.toNat right.envelopeEnd.toNat := by
  unfold findOverlap at h
  split at h
  · exact absurd h (by simp)
  · rename_i hnear
    simp only [not_or, not_not, ge_iff_le, UInt64.not_le, UInt64.lt_iff_toNat_lt] at hnear
    obtain rfl := Option.some.inj h
    have hlt := hleft.offset_lt
    have hlt' := hright.offset_lt
    refine ⟨?_, toNat_max_word _ _, toNat_min_word _ _⟩
    rw [UInt64.lt_iff_toNat_lt, toNat_max_word, toNat_min_word]
    omega

/-- **An overlap that is the whole of a footprint's envelope means that the other footprint has
all of its bytes.** -/
theorem touches_of_whole {overlap : Overlap} (h : findOverlap left right = some overlap)
    (hfirst : overlap.first = right.offset) (hlast : overlap.last = right.envelopeEnd) {byte : Nat}
    (htouches : right.Touches byte) : left.Touches byte := by
  obtain ⟨hlow, hhigh⟩ := hright.inside htouches
  rw [← UInt64.toNat_inj] at hfirst hlast
  by_cases hgaps : left.strideBytes = left.elementBytes ∧ right.strideBytes = right.elementBytes
  · obtain ⟨-, hbefore, hafter⟩ := overlap_of_contiguous hleft hright h hgaps
    exact hleft.touches_of_contiguous hgaps.1 (by omega) (by omega)
  · -- one element of the other footprint takes in the whole envelope
    obtain ⟨-, ⟨first, hindex, hbefore, hafter⟩, -⟩ := overlap_inside hleft hright h hgaps
    exact ⟨first, hindex, by omega, by omega⟩

end Search

/-! ### The footprints of accesses -/

/-- A byte of an access, in the address space of its resource's alias group: of an interval, or
of one of the elements a stride apart. -/
def Access.Touches (resource : Resource) (access : Access) (byte : Nat) : Prop :=
  if access.sizeBytes ≠ 0 then
    resource.aliasOffsetBytes.toNat + access.offsetBytes.toNat ≤ byte ∧
      byte < resource.aliasOffsetBytes.toNat + access.offsetBytes.toNat + access.sizeBytes.toNat
  else
    ∃ index < access.elementCount.toNat,
      resource.aliasOffsetBytes.toNat + access.offsetBytes.toNat +
          index * access.strideBytes.toNat ≤ byte ∧
        byte < resource.aliasOffsetBytes.toNat + access.offsetBytes.toNat +
          index * access.strideBytes.toNat + access.elementBytes.toNat

/-- A footprint whose end is a word is counted without wrapping. -/
theorem Footprint.end_of_fits {footprint : Footprint} {offset : UInt64}
    (hcount : footprint.elementCount ≠ 0) (h : ¬ footprint.overflows offset = true) :
    footprint.distance.toNat =
        (footprint.elementCount.toNat - 1) * footprint.strideBytes.toNat ∧
      (offset + footprint.distance + footprint.elementBytes).toNat =
        offset.toNat + footprint.distance.toNat + footprint.elementBytes.toNat := by
  simp only [overflows, Bool.and_eq_true, bne_iff_ne, Bool.or_eq_true, beq_iff_eq,
    Bool.not_eq_true', not_and, not_or, Bool.not_eq_false] at h
  obtain ⟨⟨⟨hstride, hmul⟩, hlast⟩, hend⟩ := h hcount
  rw [checkedMul_iff] at hmul
  rw [checkedAdd_iff] at hlast hend
  have hone : (1 : UInt64) ≤ footprint.elementCount := by
    rw [UInt64.le_iff_toNat_le, UInt64.toNat_one]
    exact Nat.pos_of_ne_zero fun hzero => hcount (UInt64.toNat_inj.mp hzero)
  refine ⟨?_, ?_⟩
  · rw [distance, toNat_mul_of_fits hmul, UInt64.toNat_sub_of_le _ _ hone, UInt64.toNat_one]
  · rw [toNat_add_of_fits hend, toNat_add_of_fits hlast]

/-- What a footprint that is accepted is. -/
theorem physicalAccess_spec {resource : Resource} {access : Access} {placed : PhysicalAccess}
    (h : physicalAccess resource access = Except.ok placed) :
    placed.Placed ∧ placed.access = access ∧ placed.aliasGroup = resource.aliasGroup ∧
      ∀ byte, placed.Touches byte ↔ access.Touches resource byte := by
  unfold physicalAccess at h
  split at h
  · exact absurd h (by simp)
  · split at h
    · exact absurd h (by simp)
    · simp only at h
      split at h
      · exact absurd h (by simp)
      · rename_i hvalid
        simp only [not_or, not_not] at hvalid
        obtain ⟨-, helement, hwidth, hcount, hstride, hfits⟩ := hvalid
        obtain ⟨hdistance, hend⟩ := Footprint.end_of_fits hcount hfits
        split at h
        · exact absurd h (by simp)
        · split at h
          · exact absurd h (by simp)
          · rename_i hplace
            simp only [not_or, Bool.not_eq_false, checkedAdd_iff] at hplace
            obtain rfl := Except.ok.inj h
            have hoffset := toNat_add_of_fits hplace.1
            have hends := toNat_add_of_fits hplace.2
            refine ⟨?_, rfl, rfl, ?_⟩
            · rw [UInt64.not_lt, UInt64.le_iff_toNat_le] at hstride
              rw [gt_iff_lt, UInt64.not_lt, UInt64.le_iff_toNat_le] at hwidth
              refine ⟨?_, hwidth, ?_, hstride, ?_⟩
              · exact Nat.pos_of_ne_zero fun hzero => helement (UInt64.toNat_inj.mp hzero)
              · exact Nat.pos_of_ne_zero fun hzero => hcount (UInt64.toNat_inj.mp hzero)
              · simp only [start]
                rw [hends, hend, hdistance, hoffset]
                omega
            · intro byte
              simp only [PhysicalAccess.Touches, start, Access.Touches]
              rw [hoffset]
              by_cases hsize : access.sizeBytes ≠ 0
              · rw [if_pos hsize, Access.footprint, if_pos hsize]
                constructor
                · rintro ⟨index, hindex, hlow, hhigh⟩
                  simp only [UInt64.toNat_one] at hindex hlow hhigh
                  omega
                · rintro ⟨hlow, hhigh⟩
                  refine ⟨byte - (resource.aliasOffsetBytes.toNat + access.offsetBytes.toNat),
                    ?_, ?_, ?_⟩ <;> simp only [UInt64.toNat_one] <;> omega
              · rw [if_neg hsize, Access.footprint, if_neg hsize]

end RunD.Hazard
