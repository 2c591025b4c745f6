/-
The search for an overlap in words of the machine.

`HazardModel` counts in integers.  Here every signed wide word and every word
that the search computes is checked, and a computation that leaves its range
gives nothing.  For placed footprints none does: the checked search gives what
the search in integers gives (`findOverlapChecked_eq`).  The coefficients of the
greatest common divisor stay under the strides, and two footprints of more than
64 elements have strides that leave enough room for their products.
-/
import RunD.HazardOverlap

namespace RunD.Hazard

open PhysicalAccess

/-! ### Checked words -/

/-- A signed word of 128 bits. -/
def wide (value : Int) : Option Int :=
  if -2 ^ 127 ≤ value ∧ value < 2 ^ 127 then some value else none

/-- A sum of words that does not wrap. -/
def wordAdd (left right : UInt64) : Option UInt64 :=
  if left.toNat + right.toNat < 2 ^ 64 then some (left + right) else none

/-- A product of words that does not wrap. -/
def wordMul (left right : UInt64) : Option UInt64 :=
  if left.toNat * right.toNat < 2 ^ 64 then some (left * right) else none

/-- The loop of `bezout`. -/
def bezoutLoopChecked (left right : Nat) (oldLeft nextLeft oldRight nextRight : Int) :
    Option Bezout :=
  if _h : right = 0 then some { gcd := left, left := oldLeft, right := oldRight }
  else
    (wide ((left / right : Nat) * nextLeft)).bind fun leftProduct =>
    (wide (oldLeft - leftProduct)).bind fun leftCoefficient =>
    (wide ((left / right : Nat) * nextRight)).bind fun rightProduct =>
    (wide (oldRight - rightProduct)).bind fun rightCoefficient =>
    bezoutLoopChecked right (left % right) nextLeft leftCoefficient nextRight rightCoefficient
termination_by right
decreasing_by exact Nat.mod_lt left (Nat.pos_of_ne_zero _h)

/-- `bezout`. -/
def bezoutChecked (left right : UInt64) : Option Bezout :=
  bezoutLoopChecked left.toNat right.toNat 1 0 0 1

/-- `floor_div`. -/
def floorDivChecked (value divisor : Int) : Option Int :=
  (wide (value.tdiv divisor)).bind fun quotient =>
  if value.tmod divisor < 0 then wide (quotient - 1) else some quotient

/-- `ceil_div`. -/
def ceilDivChecked (value divisor : Int) : Option Int :=
  (wide (-value)).bind fun negated =>
  (floorDivChecked negated divisor).bind fun quotient =>
  wide (-quotient)

/-- The bounds of `bounded_solution`, from one solution and the steps to the others. -/
def boundsChecked (leftCount rightCount : UInt64) (firstLeft firstRight leftStep rightStep : Int) :
    Option (Int × Int) :=
  (wide (-firstLeft)).bind fun negatedLeft =>
  (ceilDivChecked negatedLeft leftStep).bind fun lowerLeft =>
  (wide (-firstRight)).bind fun negatedRight =>
  (ceilDivChecked negatedRight rightStep).bind fun lowerRight =>
  (wide (signed (leftCount - 1) - firstLeft)).bind fun restLeft =>
  (floorDivChecked restLeft leftStep).bind fun upperLeft =>
  (wide (signed (rightCount - 1) - firstRight)).bind fun restRight =>
  (floorDivChecked restRight rightStep).bind fun upperRight =>
  some (max lowerLeft lowerRight, min upperLeft upperRight)

/-- The end of `bounded_solution`. -/
def solvedChecked (leftCount rightCount : UInt64) (firstLeft firstRight leftStep rightStep : Int) :
    Option (Option (UInt64 × UInt64)) :=
  (boundsChecked leftCount rightCount firstLeft firstRight leftStep rightStep).bind
    fun (lower, upper) =>
  if lower > upper then some none
  else
    (wide (leftStep * lower)).bind fun leftProduct =>
    (wide (firstLeft + leftProduct)).bind fun solvedLeft =>
    (wide (rightStep * lower)).bind fun rightProduct =>
    (wide (firstRight + rightProduct)).bind fun solvedRight =>
    if solvedLeft < 0 ∨ solvedRight < 0 ∨ solvedLeft ≥ signed leftCount ∨
        solvedRight ≥ signed rightCount then some none
    else some (some (UInt64.ofNat solvedLeft.toNat, UInt64.ofNat solvedRight.toNat))

/-- `bounded_solution`. -/
def boundedSolutionChecked (leftStride leftCount rightStride rightCount : UInt64) (target : Int) :
    Option (Option (UInt64 × UInt64)) :=
  (bezoutChecked leftStride rightStride).bind fun coefficients =>
  if coefficients.gcd = 0 ∨ target.tmod coefficients.gcd ≠ 0 then some none
  else
    (wide (target.tdiv coefficients.gcd)).bind fun scale =>
    (wide (coefficients.left * scale)).bind fun firstLeft =>
    (wide (-coefficients.right)).bind fun negated =>
    (wide (negated * scale)).bind fun firstRight =>
    solvedChecked leftCount rightCount firstLeft firstRight
      (rightStride.toNat / coefficients.gcd : Nat) (leftStride.toNat / coefficients.gcd : Nat)

/-- The element of a footprint that starts at a place. -/
def elementAtChecked (large : PhysicalAccess) (largeStart : Int) : Option (Option Nat) :=
  if largeStart < signed large.offset then some none
  else
    (wide (largeStart - signed large.offset)).bind fun distance =>
    if distance.tmod (signed large.strideBytes) ≠ 0 then some none
    else
      (wide (distance.tdiv (signed large.strideBytes))).bind fun largeIndex =>
      if largeIndex < 0 ∨ largeIndex ≥ signed large.elementCount then some none
      else some (some largeIndex.toNat)

/-- The turn of the loop of `enumerated_solution`. -/
def enumeratedAtChecked (small large : PhysicalAccess) (delta : Int) (smallIsLeft : Bool)
    (index : Nat) : Option (Option (UInt64 × UInt64)) :=
  (wide (index * signed small.strideBytes)).bind fun distance =>
  (wide (signed small.offset + distance)).bind fun smallStart =>
  (wide (if smallIsLeft then smallStart - delta else smallStart + delta)).bind fun largeStart =>
  (elementAtChecked large largeStart).bind fun found =>
  some (found.map fun largeIndex =>
    if smallIsLeft then (UInt64.ofNat index, UInt64.ofNat largeIndex)
    else (UInt64.ofNat largeIndex, UInt64.ofNat index))

/-- The first that is found, when nothing before it leaves its range. -/
def firstChecked {α β : Type} (search : α → Option (Option β)) : List α → Option (Option β)
  | [] => some none
  | item :: rest =>
      (search item).bind fun found =>
      match found with
      | some result => some (some result)
      | none => firstChecked search rest

/-- `enumerated_solution`. -/
def enumeratedSolutionChecked (small large : PhysicalAccess) (delta : Int) (smallIsLeft : Bool) :
    Option (Option (UInt64 × UInt64)) :=
  firstChecked (enumeratedAtChecked small large delta smallIsLeft)
    (List.range small.elementCount.toNat)

/-- The elements of two footprints whose starts differ by `delta`. -/
def solutionAtChecked (left right : PhysicalAccess) (delta : Int) :
    Option (Option (UInt64 × UInt64)) :=
  if left.elementCount ≤ enumerateLimit ∨ right.elementCount ≤ enumerateLimit then
    if left.elementCount ≤ right.elementCount then
      enumeratedSolutionChecked left right delta true
    else enumeratedSolutionChecked right left delta false
  else
    (wide (signed right.offset - signed left.offset)).bind fun apart =>
    (wide (apart + delta)).bind fun target =>
    boundedSolutionChecked left.strideBytes left.elementCount right.strideBytes
      right.elementCount target

/-- The bytes that two elements share. -/
def sharedBytesChecked (left right : PhysicalAccess) (indices : UInt64 × UInt64) :
    Option Overlap :=
  (wordMul indices.1 left.strideBytes).bind fun leftDistance =>
  (wordAdd left.offset leftDistance).bind fun leftStart =>
  (wordMul indices.2 right.strideBytes).bind fun rightDistance =>
  (wordAdd right.offset rightDistance).bind fun rightStart =>
  (wordAdd leftStart left.elementBytes).bind fun leftEnd =>
  (wordAdd rightStart right.elementBytes).bind fun rightEnd =>
  some { first := max leftStart rightStart, last := min leftEnd rightEnd }

/-- The turn of the loop of `find_overlap`. -/
def overlapAtChecked (left right : PhysicalAccess) (delta : Int) : Option (Option Overlap) :=
  (solutionAtChecked left right delta).bind fun found =>
  match found with
  | none => some none
  | some indices => (sharedBytesChecked left right indices).map some

/-- `find_overlap`. -/
def findOverlapChecked (left right : PhysicalAccess) : Option (Option Overlap) :=
  if left.aliasGroup ≠ right.aliasGroup ∨ left.offset ≥ right.envelopeEnd ∨
      right.offset ≥ left.envelopeEnd then some none
  else if left.strideBytes = left.elementBytes ∧ right.strideBytes = right.elementBytes then
    some (some
      { first := max left.offset right.offset
        last := min left.envelopeEnd right.envelopeEnd })
  else firstChecked (overlapAtChecked left right) (deltas left right)

/-! ### Words in range -/

theorem wide_eq {value : Int} (h : value.natAbs < 2 ^ 127) : wide value = some value :=
  if_pos (by omega)

theorem wordAdd_eq {left right : UInt64} (h : left.toNat + right.toNat < 2 ^ 64) :
    wordAdd left right = some (left + right) :=
  if_pos h

theorem wordMul_eq {left right : UInt64} (h : left.toNat * right.toNat < 2 ^ 64) :
    wordMul left right = some (left * right) :=
  if_pos h

theorem firstChecked_eq {α β : Type} {checked : α → Option (Option β)} {search : α → Option β}
    {items : List α} (h : ∀ item ∈ items, checked item = some (search item)) :
    firstChecked checked items = some (items.findSome? search) := by
  induction items with
  | nil => rfl
  | cons item items ih =>
      rw [firstChecked, h item (by simp), Option.bind_some, List.findSome?_cons]
      cases search item with
      | some result => rfl
      | none => exact ih fun other hother => h other (List.mem_cons_of_mem _ hother)

/-! ### The coefficients -/

/-- Two coefficients of opposite signs, and what they make of the remainders. -/
structure Opposed (bound : Nat) (left right : Nat) (old next : Int) : Prop where
  sum : next.natAbs * left + old.natAbs * right = bound
  signs : old ≤ 0 ∧ 0 ≤ next ∨ 0 ≤ old ∧ next ≤ 0
  old_le : old.natAbs ≤ bound

/-- A step of the loop keeps the coefficients opposed; its product and its difference stay under
the bound. -/
theorem Opposed.step {bound left right : Nat} {old next : Int}
    (h : Opposed bound left right old next) (hleft : 0 < left) (hright : 0 < right) :
    ((left / right : Nat) * next).natAbs ≤ bound ∧
      (old - (left / right : Nat) * next).natAbs ≤ bound ∧
      Opposed bound right (left % right) next (old - (left / right : Nat) * next) := by
  have hproduct : ((left / right : Nat) * next : Int).natAbs = left / right * next.natAbs := by
    rw [Int.natAbs_mul, Int.natAbs_natCast]
  have hsame : 0 ≤ next → 0 ≤ ((left / right : Nat) : Int) * next := fun hnext =>
    Int.mul_nonneg (Int.natCast_nonneg _) hnext
  have hother : next ≤ 0 → ((left / right : Nat) : Int) * next ≤ 0 := fun hnext =>
    Int.mul_nonpos_of_nonneg_of_nonpos (Int.natCast_nonneg _) hnext
  have hdifference : (old - (left / right : Nat) * next).natAbs =
      old.natAbs + left / right * next.natAbs := by
    rw [← hproduct]
    rcases h.signs with ⟨hold, hnext⟩ | ⟨hold, hnext⟩
    · have := hsame hnext
      omega
    · have := hother hnext
      omega
  have hsum : (old - (left / right : Nat) * next).natAbs * right +
      next.natAbs * (left % right) = bound := by
    rw [hdifference, ← h.sum]
    calc (old.natAbs + left / right * next.natAbs) * right + next.natAbs * (left % right)
        = next.natAbs * (right * (left / right) + left % right) + old.natAbs * right := by ring
      _ = next.natAbs * left + old.natAbs * right := by rw [Nat.div_add_mod]
  have hbound : (old - (left / right : Nat) * next).natAbs ≤ bound := by
    have hle := Nat.le_mul_of_pos_right (old - (left / right : Nat) * next).natAbs hright
    omega
  refine ⟨?_, hbound, hsum, ?_, ?_⟩
  · rw [hproduct]
    omega
  · rcases h.signs with ⟨hold, hnext⟩ | ⟨hold, hnext⟩
    · have := hsame hnext
      exact Or.inr ⟨hnext, by omega⟩
    · have := hother hnext
      exact Or.inl ⟨hnext, by omega⟩
  · have hle := Nat.le_mul_of_pos_right next.natAbs hleft
    have hsum' := h.sum
    omega

/-- The loop stays in range, and ends with coefficients under the bounds. -/
theorem bezoutLoopChecked_eq {boundLeft boundRight left right : Nat}
    {oldLeft nextLeft oldRight nextRight : Int}
    (hboundLeft : boundLeft < 2 ^ 64) (hboundRight : boundRight < 2 ^ 64) (hleft : 0 < left)
    (hopposed : Opposed boundLeft left right oldLeft nextLeft)
    (hopposed' : Opposed boundRight left right oldRight nextRight) :
    bezoutLoopChecked left right oldLeft nextLeft oldRight nextRight =
        some (bezoutLoop left right oldLeft nextLeft oldRight nextRight) ∧
      (bezoutLoop left right oldLeft nextLeft oldRight nextRight).left.natAbs ≤ boundLeft ∧
      (bezoutLoop left right oldLeft nextLeft oldRight nextRight).right.natAbs ≤ boundRight := by
  induction right using Nat.strongRecOn generalizing left oldLeft nextLeft oldRight nextRight with
  | ind right ih =>
      rw [bezoutLoopChecked, bezoutLoop]
      by_cases hzero : right = 0
      · rw [dif_pos hzero, dif_pos hzero]
        exact ⟨rfl, hopposed.old_le, hopposed'.old_le⟩
      · rw [dif_neg hzero, dif_neg hzero]
        have hright := Nat.pos_of_ne_zero hzero
        obtain ⟨hproduct, hdifference, hnext⟩ := hopposed.step hleft hright
        obtain ⟨hproduct', hdifference', hnext'⟩ := hopposed'.step hleft hright
        rw [wide_eq (by omega), Option.bind_some, wide_eq (by omega), Option.bind_some,
          wide_eq (by omega), Option.bind_some, wide_eq (by omega), Option.bind_some]
        exact ih _ (Nat.mod_lt left hright) hright hnext hnext'

/-- The coefficients of two strides are at most the strides. -/
theorem bezoutChecked_eq {left right : UInt64} (hleft : 0 < left.toNat)
    (hright : 0 < right.toNat) :
    bezoutChecked left right = some (bezout left right) ∧
      (bezout left right).left.natAbs ≤ right.toNat ∧
      (bezout left right).right.natAbs ≤ left.toNat := by
  refine bezoutLoopChecked_eq right.toNat_lt left.toNat_lt hleft ?_ ?_
  · exact ⟨by simp, Or.inr ⟨by decide, by decide⟩, hright⟩
  · exact ⟨by simp, Or.inl ⟨by decide, by decide⟩, Nat.zero_le _⟩

/-! ### The bounded equation -/

theorem floorDivChecked_eq {value divisor : Int}
    (h : value.natAbs < 2 ^ 126) :
    floorDivChecked value divisor = some (floorDiv value divisor) := by
  have hquotient : (value.tdiv divisor).natAbs ≤ value.natAbs := by
    rw [Int.natAbs_tdiv]
    exact Nat.div_le_self _ _
  rw [floorDivChecked, wide_eq (by omega), Option.bind_some, floorDiv]
  split
  · exact wide_eq (by omega)
  · rfl

theorem natAbs_floorDiv_le (value divisor : Int) :
    (floorDiv value divisor).natAbs ≤ value.natAbs + 1 := by
  have hquotient : (value.tdiv divisor).natAbs ≤ value.natAbs := by
    rw [Int.natAbs_tdiv]
    exact Nat.div_le_self _ _
  rw [floorDiv]
  split <;> omega

theorem ceilDivChecked_eq {value divisor : Int}
    (h : value.natAbs < 2 ^ 126) :
    ceilDivChecked value divisor = some (ceilDiv value divisor) := by
  have hfloor := natAbs_floorDiv_le (-value) divisor
  rw [ceilDivChecked, wide_eq (by omega), Option.bind_some,
    floorDivChecked_eq (by omega), Option.bind_some, wide_eq (by omega), ceilDiv]

section Bounded

variable {leftCount rightCount : UInt64} {firstLeft firstRight leftStep rightStep : Int}

theorem signed_lt (value : UInt64) : 0 ≤ signed value ∧ signed value < 2 ^ 64 := by
  have hlt := value.toNat_lt
  rw [signed]
  omega

theorem boundsChecked_eq (hleft : firstLeft.natAbs < 2 ^ 125) (hright : firstRight.natAbs < 2 ^ 125) :
    boundsChecked leftCount rightCount firstLeft firstRight leftStep rightStep =
      some (max (ceilDiv (-firstLeft) leftStep) (ceilDiv (-firstRight) rightStep),
        min (floorDiv (signed (leftCount - 1) - firstLeft) leftStep)
          (floorDiv (signed (rightCount - 1) - firstRight) rightStep)) := by
  have hcount := signed_lt (leftCount - 1)
  have hcount' := signed_lt (rightCount - 1)
  rw [boundsChecked, wide_eq (by omega), Option.bind_some, ceilDivChecked_eq (by omega),
    Option.bind_some, wide_eq (by omega), Option.bind_some, ceilDivChecked_eq (by omega),
    Option.bind_some, wide_eq (by omega), Option.bind_some, floorDivChecked_eq (by omega),
    Option.bind_some, wide_eq (by omega), Option.bind_some, floorDivChecked_eq (by omega),
    Option.bind_some]

/-- The least turn stays within the bounds, and so do the products with the steps. -/
theorem natAbs_turn_le {first step lower : Int} {count : UInt64} (hstep : 0 < step)
    (hlow : ceilDiv (-first) step ≤ lower) (hhigh : lower ≤ floorDiv (signed (count - 1) - first) step)
    (hfirst : first.natAbs < 2 ^ 125) : (step * lower).natAbs < 2 ^ 126 := by
  rw [ceilDiv_le_iff hstep, Int.mul_comm] at hlow
  rw [le_floorDiv_iff hstep, Int.mul_comm] at hhigh
  have hcount := signed_lt (count - 1)
  omega

theorem solvedChecked_eq (hleft : firstLeft.natAbs < 2 ^ 125) (hright : firstRight.natAbs < 2 ^ 125)
    (hleftStep : 0 < leftStep) (hrightStep : 0 < rightStep) :
    solvedChecked leftCount rightCount firstLeft firstRight leftStep rightStep =
      some (
        let lower := max (ceilDiv (-firstLeft) leftStep) (ceilDiv (-firstRight) rightStep)
        let upper := min (floorDiv (signed (leftCount - 1) - firstLeft) leftStep)
          (floorDiv (signed (rightCount - 1) - firstRight) rightStep)
        if lower > upper then none
        else
          let solvedLeft := firstLeft + leftStep * lower
          let solvedRight := firstRight + rightStep * lower
          if solvedLeft < 0 ∨ solvedRight < 0 ∨ solvedLeft ≥ signed leftCount ∨
              solvedRight ≥ signed rightCount then none
          else some (UInt64.ofNat solvedLeft.toNat, UInt64.ofNat solvedRight.toNat)) := by
  rw [solvedChecked, boundsChecked_eq hleft hright, Option.bind_some]
  simp only
  split
  · rfl
  · rename_i hbounds
    rw [gt_iff_lt, not_lt] at hbounds
    have hturnLeft := natAbs_turn_le hleftStep (le_max_left _ (ceilDiv (-firstRight) rightStep))
      (le_trans hbounds (min_le_left _ _)) hleft
    have hturnRight := natAbs_turn_le hrightStep (le_max_right (ceilDiv (-firstLeft) leftStep) _)
      (le_trans hbounds (min_le_right _ _)) hright
    rw [wide_eq (by omega), Option.bind_some, wide_eq (by omega), Option.bind_some,
      wide_eq (by omega), Option.bind_some, wide_eq (by omega), Option.bind_some]
    split <;> rfl

end Bounded

/-- Strides and targets that leave enough room keep the bounded equation in range. -/
theorem boundedSolutionChecked_eq {leftStride leftCount rightStride rightCount : UInt64}
    {target : Int} (hleft : 0 < leftStride.toNat) (hright : 0 < rightStride.toNat)
    (hleftRoom : leftStride.toNat < 2 ^ 58) (hrightRoom : rightStride.toNat < 2 ^ 58)
    (htarget : target.natAbs < 2 ^ 65) :
    boundedSolutionChecked leftStride leftCount rightStride rightCount target =
      some (boundedSolution leftStride leftCount rightStride rightCount target) := by
  obtain ⟨hchecked, hleftBound, hrightBound⟩ := bezoutChecked_eq hleft hright
  have hsteps := steps_of hleft hright
  rw [boundedSolutionChecked, hchecked, Option.bind_some]
  unfold boundedSolution
  simp only
  split
  · rfl
  · have hscale : (target.tdiv (bezout leftStride rightStride).gcd).natAbs < 2 ^ 65 := by
      rw [Int.natAbs_tdiv]
      exact Nat.lt_of_le_of_lt (Nat.div_le_self _ _) htarget
    have hproduct : ∀ coefficient : Int, coefficient.natAbs < 2 ^ 58 →
        (coefficient * target.tdiv (bezout leftStride rightStride).gcd).natAbs < 2 ^ 125 := by
      intro coefficient hcoefficient
      rw [Int.natAbs_mul]
      calc coefficient.natAbs * (target.tdiv (bezout leftStride rightStride).gcd).natAbs
          ≤ 2 ^ 58 * 2 ^ 65 := Nat.mul_le_mul (Nat.le_of_lt hcoefficient) (Nat.le_of_lt hscale)
        _ < 2 ^ 125 := by decide
    have hfirst := hproduct (bezout leftStride rightStride).left (by omega)
    have hsecond := hproduct (-(bezout leftStride rightStride).right) (by omega)
    rw [wide_eq (by omega), Option.bind_some, wide_eq (by omega), Option.bind_some,
      wide_eq (by omega), Option.bind_some, wide_eq (by omega), Option.bind_some,
      solvedChecked_eq hfirst hsecond hsteps.left_pos hsteps.right_pos]

/-! ### Footprints -/

section Footprints

variable {left right : PhysicalAccess} (hleft : left.Placed) (hright : right.Placed)

/-- A footprint of more than 64 elements has a stride that leaves room. -/
theorem PhysicalAccess.Placed.stride_lt {access : PhysicalAccess} (hplaced : access.Placed)
    (hcount : ¬ access.elementCount ≤ enumerateLimit) : access.strideBytes.toNat < 2 ^ 58 := by
  rw [UInt64.le_iff_toNat_le, not_le] at hcount
  have hlimit : enumerateLimit.toNat = 64 := rfl
  have hends := hplaced.ends
  have hword := access.envelopeEnd.toNat_lt
  rw [start] at hends
  have hmul : 64 * access.strideBytes.toNat ≤
      (access.elementCount.toNat - 1) * access.strideBytes.toNat :=
    Nat.mul_le_mul_right _ (by omega)
  omega

include hleft hright

theorem natAbs_delta_lt {delta : Int} (h : delta ∈ deltas left right) : delta.natAbs < 8 := by
  rw [mem_deltas hleft hright] at h
  have := hleft.bytes_le
  have := hright.bytes_le
  omega

theorem sharedBytesChecked_eq {indices : UInt64 × UInt64}
    (hfirst : indices.1.toNat < left.elementCount.toNat)
    (hsecond : indices.2.toNat < right.elementCount.toNat) :
    sharedBytesChecked left right indices = some (sharedBytes left right indices) := by
  have hlast := start_le_last hleft hfirst
  have hlast' := start_le_last hright hsecond
  have hword := left.envelopeEnd.toNat_lt
  have hword' := right.envelopeEnd.toNat_lt
  rw [start] at hlast hlast'
  have hproduct : (indices.1 * left.strideBytes).toNat = indices.1.toNat * left.strideBytes.toNat :=
    toNat_mul_of_fits (by omega)
  have hproduct' : (indices.2 * right.strideBytes).toNat =
      indices.2.toNat * right.strideBytes.toNat :=
    toNat_mul_of_fits (by omega)
  have hstart := hleft.start_toNat hfirst
  have hstart' := hright.start_toNat hsecond
  rw [start] at hstart hstart'
  rw [sharedBytesChecked, wordMul_eq (by omega), Option.bind_some, wordAdd_eq (by omega),
    Option.bind_some, wordMul_eq (by omega), Option.bind_some, wordAdd_eq (by omega),
    Option.bind_some, wordAdd_eq (by omega), Option.bind_some, wordAdd_eq (by omega),
    Option.bind_some]
  rfl

omit hleft hright in
theorem elementAtChecked_eq (large : PhysicalAccess) {place : Int} (h : place.natAbs < 2 ^ 66) :
    elementAtChecked large place = some (elementAt large place) := by
  have hoffset := signed_lt large.offset
  unfold elementAtChecked elementAt
  split
  · rfl
  · rw [wide_eq (by omega), Option.bind_some]
    simp only
    split
    · rfl
    · have hquotient : ((place - signed large.offset).tdiv (signed large.strideBytes)).natAbs ≤
          (place - signed large.offset).natAbs := by
        rw [Int.natAbs_tdiv]
        exact Nat.div_le_self _ _
      rw [wide_eq (by omega), Option.bind_some]
      split <;> rfl

omit hright in
theorem enumeratedAtChecked_eq (large : PhysicalAccess) {delta : Int} (hdelta : delta.natAbs < 8)
    (smallIsLeft : Bool) {index : Nat} (hindex : index < left.elementCount.toNat) :
    enumeratedAtChecked left large delta smallIsLeft index =
      some (enumeratedAt left large delta smallIsLeft index) := by
  have hlast := start_le_last hleft hindex
  have hword := left.envelopeEnd.toNat_lt
  have hstart := signed_start left index
  have hoffset := signed_lt left.offset
  rw [enumeratedAtChecked, wide_eq (by omega), Option.bind_some, wide_eq (by omega),
    Option.bind_some, wide_eq (by split <;> omega), Option.bind_some,
    elementAtChecked_eq large (by split <;> omega), Option.bind_some, enumeratedAt]

omit hright in
theorem enumeratedSolutionChecked_eq (large : PhysicalAccess) {delta : Int}
    (hdelta : delta.natAbs < 8) (smallIsLeft : Bool) :
    enumeratedSolutionChecked left large delta smallIsLeft =
      some (enumeratedSolution left large delta smallIsLeft) :=
  firstChecked_eq fun _ hindex =>
    enumeratedAtChecked_eq hleft large hdelta smallIsLeft (List.mem_range.mp hindex)

theorem solutionAtChecked_eq {delta : Int} (hdelta : delta.natAbs < 8) :
    solutionAtChecked left right delta = some (solutionAt left right delta) := by
  unfold solutionAtChecked solutionAt
  split
  · split
    · exact enumeratedSolutionChecked_eq hleft right hdelta true
    · exact enumeratedSolutionChecked_eq hright left hdelta false
  · rename_i hlarge
    rw [not_or] at hlarge
    have hoffset := signed_lt left.offset
    have hoffset' := signed_lt right.offset
    rw [wide_eq (by omega), Option.bind_some, wide_eq (by omega), Option.bind_some]
    exact boundedSolutionChecked_eq hleft.stride_pos hright.stride_pos (hleft.stride_lt hlarge.1)
      (hright.stride_lt hlarge.2) (by omega)

/-- **The search for an overlap of two placed footprints never leaves the range of a word.** -/
theorem findOverlapChecked_eq : findOverlapChecked left right = some (findOverlap left right) := by
  unfold findOverlapChecked findOverlap
  split
  · rfl
  · split
    · rfl
    · refine firstChecked_eq ?_
      intro delta hdelta
      rw [overlapAtChecked, solutionAtChecked_eq hleft hright (natAbs_delta_lt hleft hright hdelta),
        Option.bind_some]
      cases hfound : solutionAt left right delta with
      | none => rfl
      | some indices =>
          have hapart := (solutionAt_spec hleft hright).1 indices hfound
          simp only [sharedBytesChecked_eq hleft hright hapart.left_lt hapart.right_lt,
            Option.map_some]

end Footprints

/-! ### The search as a whole -/

/-- **Two validated accesses of an alias group overlap exactly when they share a byte; the interval
is what two elements share, or all that the envelopes share when neither footprint has gaps; and
no word leaves its range.** -/
theorem findOverlap_exact {leftResource rightResource : Resource} {left right : Access}
    {leftPlaced rightPlaced : PhysicalAccess}
    (hleft : physicalAccess leftResource left = Except.ok leftPlaced)
    (hright : physicalAccess rightResource right = Except.ok rightPlaced) :
    ((findOverlap leftPlaced rightPlaced).isSome ↔
      leftResource.aliasGroup = rightResource.aliasGroup ∧
      ∃ byte, left.Touches leftResource byte ∧ right.Touches rightResource byte) ∧
    (∀ overlap, findOverlap leftPlaced rightPlaced = some overlap →
      overlap.first < overlap.last ∧
      if leftPlaced.strideBytes = leftPlaced.elementBytes ∧
          rightPlaced.strideBytes = rightPlaced.elementBytes then
        overlap.first.toNat = max leftPlaced.offset.toNat rightPlaced.offset.toNat ∧
        overlap.last.toNat = min leftPlaced.envelopeEnd.toNat rightPlaced.envelopeEnd.toNat
      else
        (∃ first < leftPlaced.elementCount.toNat, leftPlaced.start first ≤ overlap.first.toNat ∧
          overlap.last.toNat ≤ leftPlaced.start first + leftPlaced.elementBytes.toNat) ∧
        ∃ second < rightPlaced.elementCount.toNat,
          rightPlaced.start second ≤ overlap.first.toNat ∧
          overlap.last.toNat ≤ rightPlaced.start second + rightPlaced.elementBytes.toNat) ∧
    findOverlapChecked leftPlaced rightPlaced = some (findOverlap leftPlaced rightPlaced) := by
  obtain ⟨hplaced, -, hgroup, htouches⟩ := physicalAccess_spec hleft
  obtain ⟨hplaced', -, hgroup', htouches'⟩ := physicalAccess_spec hright
  refine ⟨?_, ?_, findOverlapChecked_eq hplaced hplaced'⟩
  · rw [findOverlap_isSome_iff hplaced hplaced', Meets, hgroup, hgroup']
    simp only [htouches, htouches']
  · intro overlap hoverlap
    by_cases hgaps : leftPlaced.strideBytes = leftPlaced.elementBytes ∧
        rightPlaced.strideBytes = rightPlaced.elementBytes
    · obtain ⟨hlt, hends⟩ := overlap_of_contiguous hplaced hplaced' hoverlap hgaps
      rw [if_pos hgaps]
      exact ⟨hlt, hends⟩
    · obtain ⟨hlt, hinside⟩ := overlap_inside hplaced hplaced' hoverlap hgaps
      rw [if_neg hgaps]
      exact ⟨hlt, hinside⟩

/-- A resource with room for a few elements. -/
def smallResource : Resource := { id := 1, bytes := 64, aliasGroup := 7, aliasOffsetBytes := 0 }

/-- Elements of four bytes every twelve, from an offset on. -/
def everyTwelve (offset : UInt64) : Access where
  node := 0
  resource := 1
  mode := .write
  offsetBytes := offset
  sizeBytes := 0
  elementBytes := 4
  elementCount := 3
  strideBytes := 12

/-- Eight bytes without gaps. -/
def eightBytes : Access where
  node := 0
  resource := 1
  mode := .write
  offsetBytes := 0
  sizeBytes := 8
  elementBytes := 0
  elementCount := 0
  strideBytes := 0

/-- Interleaved elements share nothing, although their envelopes do. -/
theorem findOverlap_exact_interleaved :
    ¬ ∃ byte, (everyTwelve 0).Touches smallResource byte ∧
      (everyTwelve 4).Touches smallResource byte := by
  have hexact := @findOverlap_exact smallResource smallResource (everyTwelve 0) (everyTwelve 4)
    ⟨everyTwelve 0, 7, 0, 4, 3, 12, 28⟩ ⟨everyTwelve 4, 7, 4, 4, 3, 12, 32⟩ (by decide) (by decide)
  intro hshared
  have hfound := hexact.1.mpr ⟨rfl, hshared⟩
  exact absurd hfound (by decide)

/-- Two accesses to the same eight bytes: what is found is not inside one element of one byte. -/
theorem findOverlap_exact_not :
    ∃ placed, physicalAccess smallResource eightBytes = Except.ok placed ∧
      ∃ overlap, findOverlap placed placed = some overlap ∧
        ¬ ∃ first < placed.elementCount.toNat, placed.start first ≤ overlap.first.toNat ∧
          overlap.last.toNat ≤ placed.start first + placed.elementBytes.toNat := by
  refine ⟨⟨eightBytes, 7, 0, 1, 8, 1, 8⟩, by decide, ⟨0, 8⟩, by decide, ?_⟩
  rintro ⟨first, -, hlow, hhigh⟩
  simp only [start] at hlow hhigh
  have hzero : (0 : UInt64).toNat = 0 := rfl
  have hone : (1 : UInt64).toNat = 1 := rfl
  have height : (8 : UInt64).toNat = 8 := rfl
  omega

end RunD.Hazard
