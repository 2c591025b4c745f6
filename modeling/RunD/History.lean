/-
The rolling history of a replay: a ring of segments that forgets the oldest
when a new one does not fit.

`append` first finds out, without touching the history, how many segments have
to go and what the new checkpoint is (`planAppend`), and only then changes the
slots.  Everything that can go wrong goes wrong in the first part.  A counter
that has reached its maximum stays there.
-/
import RunD.Checkpoint
import RunD.Ring

namespace RunD

/-- `Retention`; `max_segments` is a `std::size_t`. -/
structure Retention where
  maxSegments : Nat := 64
  maxBytes : UInt64 := 1024 * 1024 * 1024
  maxEvents : UInt64 := 1024 * 1024
  deriving DecidableEq, Repr

structure Segment where
  sequence : UInt64
  byteCount : UInt64
  eventCount : UInt64
  record : Record
  checkpoint : Checkpoint
  deriving DecidableEq, Repr

structure History where
  retention : Retention := {}
  anchor : Option Checkpoint := none
  slots : List (Option Segment) := []
  head : Nat := 0
  size : Nat := 0
  retainedBytes : UInt64 := 0
  retainedEvents : UInt64 := 0
  appendedSegments : UInt64 := 0
  evictedSegments : UInt64 := 0
  rejectedSegments : UInt64 := 0
  code : ReplayCode := .historyNotPrepared
  deriving DecidableEq, Repr

/-- `Append`, what an append answers. -/
structure Append where
  code : ReplayCode
  sequence : UInt64
  evictedSegments : Nat
  deriving DecidableEq, Repr

/-- `SegmentWeight`: bytes and events of a segment, none when a sum overflows. -/
def segmentWeight (record : Record) (state : List UInt8) : Option (UInt64 × UInt64) :=
  let sum (total : Option UInt64) (value : UInt64) : Option UInt64 :=
    total.bind fun total => if checkedAdd total value then some (total + value) else none
  let bytes := [record.diagnosticBytes, UInt64.ofNat state.length].foldl sum
    (some record.logicalBytes)
  let events := [record.observationCount, record.hostEventCount, record.inputCount,
    record.captureCount, record.traceRecordCount].foldl sum (some 0)
  bytes.bind fun bytes => events.map fun events => (bytes, events)

namespace History

variable {ε : Type}

/-! ### Construction -/

/-- The first constructor; `maxSize` is what the slots can hold at most, and `allocates` whether
they found their memory. -/
def make (maxSize : Nat) (allocates : Bool) (retention : Retention) : History :=
  if retention.maxSegments = 0 ∨ retention.maxBytes = 0 ∨ retention.maxEvents = 0 ∨
      retention.maxSegments > maxSize then
    { retention := retention, code := .retentionInvalid }
  else if allocates then
    { retention := retention, slots := List.replicate retention.maxSegments none, code := .ok }
  else { retention := retention, code := .retentionAllocationFailed }

/-- The second constructor, which goes on from a checkpoint. -/
def makeAnchored (maxSize : Nat) (allocates : Bool) (previous : Checkpoint)
    (retention : Retention) : History :=
  let history := make maxSize allocates retention
  if history.code ≠ .ok then history
  else if previous.ok = false then { history with slots := [], code := previous.code }
  else if previous.stateSize > retention.maxBytes.toNat then
    { history with slots := [], code := .retentionAnchorExceedsBounds }
  else
    { history with
      retainedBytes := UInt64.ofNat previous.stateSize
      anchor := some previous }

/-! ### Reading -/

def segment (history : History) (index : Nat) : Option Segment :=
  if index ≥ history.size ∨ history.slots = [] then none
  else (history.slots[(history.head + index) % history.slots.length]?).join

def find (history : History) (sequence : UInt64) : Option Segment :=
  if history.size = 0 ∨ history.slots = [] ∨ sequence = 0 then none
  else
    match (history.slots[history.head]?).join with
    | none => none
    | some oldest =>
        if sequence < oldest.sequence then none
        else
          let offset := sequence - oldest.sequence
          if offset.toNat ≥ history.size then none
          else
            let untilWrap := history.slots.length - history.head
            let slot :=
              if offset.toNat < untilWrap then history.head + offset.toNat
              else offset.toNat - untilWrap
            match (history.slots[slot]?).join with
            | none => none
            | some found => if found.sequence = sequence then some found else none

/-! ### Appending -/

/-- `(head_ + size_ - 1u) % slots_.size()`, and the segment the code takes to be there. -/
def latestSegment (history : History) : Checked ε Segment := do
  let slot ← fetch history.slots ((history.head + history.size - 1) % history.slots.length)
  match slot with
  | none => Except.error .outOfBounds
  | some segment => pure segment

/-- The condition of the eviction loop. -/
def overflows (history : History) (segmentBytes segmentEvents : UInt64) (remove : Nat)
    (remainingBytes remainingEvents : UInt64) : Bool :=
  decide (history.size - remove ≥ history.retention.maxSegments) ||
    segmentBytes > history.retention.maxBytes - remainingBytes ||
    segmentEvents > history.retention.maxEvents - remainingEvents

/-- The eviction loop.  The first argument bounds its turns: once every segment is gone the
condition is false, and going on would be a fault. -/
def evictionLoop (history : History) (segmentBytes segmentEvents : UInt64) :
    Nat → Nat → UInt64 → UInt64 → Checked ReplayCode (Nat × UInt64 × UInt64)
  | turns, remove, remainingBytes, remainingEvents =>
      if history.overflows segmentBytes segmentEvents remove remainingBytes remainingEvents then
        match turns with
        | 0 => Except.error .outOfBounds
        | turns + 1 => do
            let slot ← fetch history.slots ((history.head + remove) % history.slots.length)
            match slot with
            | none => leave .retentionStateInvalid
            | some evicted =>
                require (¬ (evicted.byteCount > remainingBytes ∨
                  evicted.eventCount > remainingEvents)) .retentionStateInvalid
                evictionLoop history segmentBytes segmentEvents turns (remove + 1)
                  (remainingBytes - evicted.byteCount) (remainingEvents - evicted.eventCount)
      else pure (remove, remainingBytes, remainingEvents)

/-- What an append is about to do. -/
structure AppendPlan where
  segmentBytes : UInt64
  segmentEvents : UInt64
  remove : Nat
  remainingBytes : UInt64
  remainingEvents : UInt64
  next : Checkpoint

/-- The checkpoint after the new segment. -/
def nextCheckpoint (history : History) (binding : Binding) (record : Record)
    (state : List UInt8) (allocates : Bool) : Checked ε Checkpoint :=
  if history.size ≠ 0 then do
    let latest ← history.latestSegment
    binding.advance latest.checkpoint record state allocates
  else
    match history.anchor with
    | some anchor => binding.advance anchor record state allocates
    | none => binding.checkpoint record state allocates

/-- `append` up to the point where it changes the history. -/
def planAppend (history : History) (binding : Binding) (record : Record) (state : List UInt8)
    (allocates : Bool) : Checked ReplayCode AppendPlan := do
  require (history.code = .ok) history.code
  require (record.ok = true) .retentionRecordInvalid
  require (binding.code = .ok) binding.code
  require (binding.checkpointable = true) .stateSchemaInvalid
  match segmentWeight record state with
  | none => leave .retentionWeightOverflow
  | some (segmentBytes, segmentEvents) =>
      require (¬ (segmentBytes > history.retention.maxBytes ∨
        segmentEvents > history.retention.maxEvents)) .retentionSegmentExceedsBounds
      let retained :=
        if history.size = 0 ∧ history.anchor.isSome then 0 else history.retainedBytes
      require (¬ (retained > history.retention.maxBytes ∨
        history.retainedEvents > history.retention.maxEvents)) .retentionStateInvalid
      let (remove, remainingBytes, remainingEvents) ←
        history.evictionLoop segmentBytes segmentEvents history.size 0 retained
          history.retainedEvents
      let next ← history.nextCheckpoint binding record state allocates
      require (next.ok = true) next.code
      pure { segmentBytes := segmentBytes, segmentEvents := segmentEvents, remove := remove,
             remainingBytes := remainingBytes, remainingEvents := remainingEvents, next := next }

/-- The loop that resets the oldest slots. -/
def evict : Nat → History → Checked ε History
  | 0, history => pure history
  | remove + 1, history => do
      let slots ← assign history.slots history.head none
      evict remove
        { history with
          slots := slots
          head := (history.head + 1) % history.slots.length
          size := history.size - 1 }

/-- The rest of `append`, once nothing can go wrong any more. -/
def commit (history : History) (record : Record) (plan : AppendPlan) :
    Checked ε (Append × History) := do
  let evicted ← evict plan.remove history
  let sequence := plan.next.segmentCount
  let segment : Segment :=
    { sequence := sequence, byteCount := plan.segmentBytes, eventCount := plan.segmentEvents,
      record := record, checkpoint := plan.next }
  let slots ← assign evicted.slots ((evicted.head + evicted.size) % evicted.slots.length)
    (some segment)
  pure ({ code := .ok, sequence := sequence, evictedSegments := plan.remove },
    { evicted with
      slots := slots
      size := evicted.size + 1
      retainedBytes := plan.remainingBytes + plan.segmentBytes
      retainedEvents := plan.remainingEvents + plan.segmentEvents
      evictedSegments := counterSaturatingAdd history.evictedSegments (UInt64.ofNat plan.remove)
      appendedSegments := counterSaturatingAdd history.appendedSegments 1
      anchor := none })

/-- The lambda `reject`. -/
def reject (history : History) (code : ReplayCode) : Append × History :=
  ({ code := code, sequence := 0, evictedSegments := 0 },
    { history with rejectedSegments := counterSaturatingAdd history.rejectedSegments 1 })

def append (history : History) (binding : Binding) (record : Record) (state : List UInt8)
    (allocates : Bool) : Checked ε (Append × History) :=
  match history.planAppend binding record state allocates with
  | Except.ok plan => history.commit record plan
  | Except.error (.reject code) => pure (history.reject code)
  | Except.error .outOfBounds => Except.error .outOfBounds

end History

end RunD
