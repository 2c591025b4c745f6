/-
The model of the resource planner: resources, accesses and their footprints on
the bytes of an alias group, and whether two footprints overlap.

A footprint is a number of elements a stride apart.  Two of them overlap when
two of their elements do; the difference of the starts of such elements is one
of a few, and for each of them a linear equation is solved in range.  Signed
wide words are integers here.
-/
import Mathlib.Data.Int.GCD
import RunD.CheckedWord

namespace RunD.Hazard

/-! ### Resources and accesses -/

/-- `AccessMode`. -/
inductive AccessMode where
  | read
  | write
  deriving DecidableEq, Repr

/-- The reasons the planner gives. -/
inductive Reason where
  | resourceGraphIncomplete
  | resourceInvalid
  | resourceAccessInvalid
  | resourceRangeCapacity
  deriving DecidableEq, Repr

/-- `Resource`. -/
structure Resource where
  id : UInt32
  bytes : UInt64
  aliasGroup : UInt64
  aliasOffsetBytes : UInt64
  deriving DecidableEq, Repr

/-- `Access`: contiguous, with a size, or in elements a stride apart. -/
structure Access where
  node : UInt32
  resource : UInt32
  mode : AccessMode
  offsetBytes : UInt64
  sizeBytes : UInt64
  elementBytes : UInt64
  elementCount : UInt64
  strideBytes : UInt64
  deriving DecidableEq, Repr

/-- `PhysicalAccess`, without the fields that link it into an index. -/
structure PhysicalAccess where
  access : Access
  aliasGroup : UInt64
  offset : UInt64
  elementBytes : UInt64
  elementCount : UInt64
  strideBytes : UInt64
  envelopeEnd : UInt64
  deriving DecidableEq, Repr

/-- What `physical_access` counts of an access before it is placed. -/
structure Footprint where
  elementBytes : UInt64
  elementCount : UInt64
  strideBytes : UInt64
  deriving DecidableEq, Repr

/-- The footprint an access names, in either form. -/
def Access.footprint (access : Access) : Footprint :=
  if access.sizeBytes ≠ 0 then
    { elementBytes := 1, elementCount := access.sizeBytes, strideBytes := 1 }
  else
    { elementBytes := access.elementBytes
      elementCount := access.elementCount
      strideBytes := access.strideBytes }

/-- The distance to the last element of a footprint. -/
def Footprint.distance (footprint : Footprint) : UInt64 :=
  (footprint.elementCount - 1) * footprint.strideBytes

/-- `footprint_overflow`: an end that is not a word. -/
def Footprint.overflows (footprint : Footprint) (offset : UInt64) : Bool :=
  footprint.elementCount != 0 &&
    (footprint.strideBytes == 0 ||
      !checkedMul (footprint.elementCount - 1) footprint.strideBytes ||
      !checkedAdd offset footprint.distance ||
      !checkedAdd (offset + footprint.distance) footprint.elementBytes)

/-- `physical_access`. -/
def physicalAccess (resource : Resource) (access : Access) : Except Reason PhysicalAccess :=
  if resource.id = 0 ∨ resource.aliasGroup = 0 ∨
      checkedAdd resource.aliasOffsetBytes resource.bytes = false then
    Except.error .resourceInvalid
  else if (access.sizeBytes ≠ 0) ↔ (access.elementBytes ≠ 0 ∨ access.elementCount ≠ 0 ∨
      access.strideBytes ≠ 0) then
    Except.error .resourceAccessInvalid
  else
    let footprint := access.footprint
    let relativeEnd := access.offsetBytes + footprint.distance + footprint.elementBytes
    if access.resource ≠ resource.id ∨ footprint.elementBytes = 0 ∨ footprint.elementBytes > 8 ∨
        footprint.elementCount = 0 ∨ footprint.strideBytes < footprint.elementBytes ∨
        footprint.overflows access.offsetBytes = true then
      Except.error .resourceAccessInvalid
    else if relativeEnd > resource.bytes then Except.error .resourceAccessInvalid
    else if checkedAdd resource.aliasOffsetBytes access.offsetBytes = false ∨
        checkedAdd resource.aliasOffsetBytes relativeEnd = false then
      Except.error .resourceRangeCapacity
    else
      Except.ok
        { access
          aliasGroup := resource.aliasGroup
          offset := resource.aliasOffsetBytes + access.offsetBytes
          elementBytes := footprint.elementBytes
          elementCount := footprint.elementCount
          strideBytes := footprint.strideBytes
          envelopeEnd := resource.aliasOffsetBytes + relativeEnd }

/-! ### Linear equations in range -/

/-- `Bezout`. -/
structure Bezout where
  gcd : Nat
  left : Int
  right : Int
  deriving DecidableEq, Repr

/-- The loop of `bezout`: the remainders, and what they are of the two words. -/
def bezoutLoop (left right : Nat) (oldLeft nextLeft oldRight nextRight : Int) : Bezout :=
  if _h : right = 0 then { gcd := left, left := oldLeft, right := oldRight }
  else
    bezoutLoop right (left % right) nextLeft (oldLeft - (left / right : Nat) * nextLeft)
      nextRight (oldRight - (left / right : Nat) * nextRight)
termination_by right
decreasing_by exact Nat.mod_lt left (Nat.pos_of_ne_zero _h)

/-- `bezout`. -/
def bezout (left right : UInt64) : Bezout := bezoutLoop left.toNat right.toNat 1 0 0 1

/-- `floor_div`. -/
def floorDiv (value divisor : Int) : Int :=
  if value.tmod divisor < 0 then value.tdiv divisor - 1 else value.tdiv divisor

/-- `ceil_div`. -/
def ceilDiv (value divisor : Int) : Int := -floorDiv (-value) divisor

/-- A word as a signed wide word. -/
def signed (value : UInt64) : Int := value.toNat

/-- `bounded_solution`: the indices of elements whose distances from the starts differ by a
target. -/
def boundedSolution (leftStride leftCount rightStride rightCount : UInt64) (target : Int) :
    Option (UInt64 × UInt64) :=
  let coefficients := bezout leftStride rightStride
  if coefficients.gcd = 0 ∨ target.tmod coefficients.gcd ≠ 0 then none
  else
    let scale := target.tdiv coefficients.gcd
    let firstLeft := coefficients.left * scale
    let firstRight := -coefficients.right * scale
    let leftStep : Int := (rightStride.toNat / coefficients.gcd : Nat)
    let rightStep : Int := (leftStride.toNat / coefficients.gcd : Nat)
    let lower := max (ceilDiv (-firstLeft) leftStep) (ceilDiv (-firstRight) rightStep)
    let upper := min (floorDiv (signed (leftCount - 1) - firstLeft) leftStep)
      (floorDiv (signed (rightCount - 1) - firstRight) rightStep)
    if lower > upper then none
    else
      let solvedLeft := firstLeft + leftStep * lower
      let solvedRight := firstRight + rightStep * lower
      if solvedLeft < 0 ∨ solvedRight < 0 ∨ solvedLeft ≥ signed leftCount ∨
          solvedRight ≥ signed rightCount then none
      else some (UInt64.ofNat solvedLeft.toNat, UInt64.ofNat solvedRight.toNat)

/-- The element of a footprint that starts at a place. -/
def elementAt (large : PhysicalAccess) (largeStart : Int) : Option Nat :=
  if largeStart < signed large.offset then none
  else
    let distance := largeStart - signed large.offset
    if distance.tmod (signed large.strideBytes) ≠ 0 then none
    else
      let largeIndex := distance.tdiv (signed large.strideBytes)
      if largeIndex < 0 ∨ largeIndex ≥ signed large.elementCount then none
      else some largeIndex.toNat

/-- The turn of the loop of `enumerated_solution`: the element of the large footprint that starts
where an element of the small one asks for. -/
def enumeratedAt (small large : PhysicalAccess) (delta : Int) (smallIsLeft : Bool) (index : Nat) :
    Option (UInt64 × UInt64) :=
  let smallStart := signed small.offset + index * signed small.strideBytes
  let largeStart := if smallIsLeft then smallStart - delta else smallStart + delta
  (elementAt large largeStart).map fun largeIndex =>
    if smallIsLeft then (UInt64.ofNat index, UInt64.ofNat largeIndex)
    else (UInt64.ofNat largeIndex, UInt64.ofNat index)

/-- `enumerated_solution`: the first element of the small footprint for which there is one. -/
def enumeratedSolution (small large : PhysicalAccess) (delta : Int) (smallIsLeft : Bool) :
    Option (UInt64 × UInt64) :=
  (List.range small.elementCount.toNat).findSome? (enumeratedAt small large delta smallIsLeft)

/-! ### Overlaps -/

/-- `Overlap`, when one is found. -/
structure Overlap where
  first : UInt64
  last : UInt64
  deriving DecidableEq, Repr

def enumerateLimit : UInt64 := 64

/-- The elements of two footprints whose starts differ by `delta`. -/
def solutionAt (left right : PhysicalAccess) (delta : Int) : Option (UInt64 × UInt64) :=
  if left.elementCount ≤ enumerateLimit ∨ right.elementCount ≤ enumerateLimit then
    if left.elementCount ≤ right.elementCount then enumeratedSolution left right delta true
    else enumeratedSolution right left delta false
  else
    boundedSolution left.strideBytes left.elementCount right.strideBytes right.elementCount
      (signed right.offset - signed left.offset + delta)

/-- The bytes that two elements share. -/
def sharedBytes (left right : PhysicalAccess) (indices : UInt64 × UInt64) : Overlap :=
  let leftStart := left.offset + indices.1 * left.strideBytes
  let rightStart := right.offset + indices.2 * right.strideBytes
  { first := max leftStart rightStart
    last := min (leftStart + left.elementBytes) (rightStart + right.elementBytes) }

/-- The differences of starts at which elements overlap, from the least on. -/
def deltas (left right : PhysicalAccess) : List Int :=
  (List.range (left.elementBytes.toNat + right.elementBytes.toNat - 1)).map fun turn =>
    1 - signed left.elementBytes + (turn : Nat)

/-- `find_overlap`. -/
def findOverlap (left right : PhysicalAccess) : Option Overlap :=
  if left.aliasGroup ≠ right.aliasGroup ∨ left.offset ≥ right.envelopeEnd ∨
      right.offset ≥ left.envelopeEnd then none
  else if left.strideBytes = left.elementBytes ∧ right.strideBytes = right.elementBytes then
    some { first := max left.offset right.offset, last := min left.envelopeEnd right.envelopeEnd }
  else
    (deltas left right).findSome? fun delta =>
      (solutionAt left right delta).map (sharedBytes left right)

/-- `intersects`. -/
def intersects (leftResource : Resource) (left : Access) (rightResource : Resource)
    (right : Access) : Except Reason Bool := do
  let physicalLeft ← physicalAccess leftResource left
  let physicalRight ← physicalAccess rightResource right
  pure (findOverlap physicalLeft physicalRight).isSome

end RunD.Hazard
