/-
The radix sort of the CPU backend.

Keys and values are kept in columns.  Each pass counts the keys by one byte,
turns the counts into running offsets, and writes every key with its value to
the next place of its byte, from one pair of columns into the other: an even
pass writes the temporary columns, an odd one the output.  Only the last pass
of a signed order turns the sign over, and only the first pass makes the values
up, when they are the places of the keys.
-/
import RunD.ColumnScatter

namespace RunD.Radix

/-! ### State -/

/-- The sort can leave with a reason. -/
abbrev Sorting (α : Type) := Checked String α

/-- A column of keys and one of values. -/
structure Columns (w : Nat) where
  keys : List (BitVec w)
  values : List UInt32
  deriving DecidableEq, Repr

/-- The arrays that a sort writes. -/
structure SortState (w : Nat) where
  output : Columns w
  temp : Columns w
  counts : List UInt64
  offsets : List UInt64
  deriving DecidableEq, Repr

variable {w : Nat}

/-- `SortBucket`. -/
def sortBucket (key : BitVec w) (pass passCount : UInt32) (signedOrder : Bool) : UInt32 :=
  let bucket := UInt32.ofNat ((key >>> (pass * 8).toNat) &&& 0xff).toNat
  if signedOrder = true ∧ pass + 1 = passCount then bucket ^^^ 0x80 else bucket

/-! ### One pass -/

/-- `++counts[bucket]` for each key, after the counts are cleared. -/
def countBuckets (bucketOf : BitVec w → Nat) (count : Nat) (keys : List (BitVec w))
    (counts : List UInt64) : Sorting (List UInt64) :=
  forRange count (fun index counts => do
    let key ← fetch keys index
    let held ← fetch counts (bucketOf key)
    assign counts (bucketOf key) (held + 1)) (counts.map fun _ => 0)

/-- The running offsets of the buckets. -/
def placeBuckets (counts offsets : List UInt64) : Sorting (UInt64 × List UInt64) :=
  forRange counts.length (fun bucket (state : UInt64 × List UInt64) => do
    let offsets ← assign state.2 bucket state.1
    let held ← fetch counts bucket
    pure (state.1 + held, offsets)) (0, offsets)

/-- The writing loop of a pass; `valueAt` is where the values come from. -/
def scatterColumns (bucketOf : BitVec w → Nat) (count : Nat) (keys : List (BitVec w))
    (valueAt : Nat → Sorting UInt32) (offsets : List UInt64) (target : Columns w) :
    Sorting (List UInt64 × Columns w) :=
  forRange count (fun index (state : List UInt64 × Columns w) => do
    let key ← fetch keys index
    let out ← fetch state.1 (bucketOf key)
    let offsets ← assign state.1 (bucketOf key) (out + 1)
    let targetKeys ← assign state.2.keys out.toNat key
    let value ← valueAt index
    let targetValues ← assign state.2.values out.toNat value
    pure (offsets, { keys := targetKeys, values := targetValues })) (offsets, target)

/-- The body of the loop over the passes, from one pair of columns into another. -/
def sortPass (bucketOf : BitVec w → Nat) (count : Nat) (keys : List (BitVec w))
    (valueAt : Nat → Sorting UInt32) (target : Columns w) (counts offsets : List UInt64) :
    Sorting (List UInt64 × List UInt64 × Columns w) := do
  let counts ← countBuckets bucketOf count keys counts
  let placed ← placeBuckets counts offsets
  let written ← scatterColumns bucketOf count keys valueAt placed.2 target
  pure (counts, written)

/-! ### The sort -/

/-- The pass of a number: its source is the input, or what the pass before it wrote. -/
def runPass (input : Columns w) (count : Nat) (passCount : UInt32) (identityValues signedOrder : Bool)
    (pass : Nat) (state : SortState w) : Sorting (SortState w) := do
  let source :=
    if pass = 0 then input else if pass % 2 = 1 then state.temp else state.output
  let valueAt : Nat → Sorting UInt32 := fun index =>
    if pass = 0 ∧ identityValues = true then pure (UInt32.ofNat index)
    else fetch source.values index
  let bucketOf := fun key : BitVec w =>
    (sortBucket key (UInt32.ofNat pass) passCount signedOrder).toNat
  let target := if pass % 2 = 0 then state.temp else state.output
  let (counts, offsets, written) ←
    sortPass bucketOf count source.keys valueAt target state.counts state.offsets
  if pass % 2 = 0 then pure { state with temp := written, counts, offsets }
  else pure { state with output := written, counts, offsets }

/-- `ExecuteCpuRadixSortPrepared`. -/
def executeCpuRadixSortPrepared (input : Columns w) (elementCount : UInt64) (passCount : UInt32)
    (identityValues signedOrder : Bool) (state : SortState w) : Sorting (SortState w) := do
  require (¬ (passCount = 0 ∨ passCount % 2 ≠ 0)) "compute_sort_invalid"
  require (¬ (identityValues = true ∧ elementCount > 0xFFFFFFFF + 1)) "compute_sort_invalid"
  forRange passCount.toNat
    (runPass input elementCount.toNat passCount identityValues signedOrder) state

end RunD.Radix
