/-
Checkpoints: what is kept at the boundary between two completed segments of a
replay.

A checkpoint holds the state of the caller and a chain of counters and
identities that continues the one of the checkpoint before it.  `Binding` is
where they are made, from a first segment or by advancing an earlier
checkpoint.  A copy that runs out of memory is an answer of its own, so both
take `allocates`, which says whether the copy of the state finds its memory.
-/
import RunD.Checked
import RunD.CheckedWord
import RunD.ReplayCode
import RunD.ReplayHash

namespace RunD

/-! ### Records -/

/-- What checkpoints and histories read of a completed segment. -/
structure RecordData where
  facadeCode : ReplayCode := .ok
  code : ReplayCode := .ok
  startHash : UInt64 := 0
  replayHash : UInt64 := 0
  inputCount : UInt64 := 0
  inputHash : UInt64 := 0
  transcriptHash : UInt64 := 0
  logicalBytes : UInt64 := 0
  diagnosticBytes : UInt64 := 0
  observations : UInt64 := 0
  hostEvents : UInt64 := 0
  captures : UInt64 := 0
  traceRecords : UInt64 := 0
  deriving DecidableEq, Repr

/-- `Record`.  The one without data is made from a failure, or is what a move leaves behind. -/
structure Record where
  data : Option RecordData
  storedCode : ReplayCode
  absent_code : data = none → storedCode ≠ .ok
  deriving DecidableEq, Repr

namespace Record

/-- The record of a completed segment. -/
def ofData (data : RecordData) : Record := ⟨some data, .ok, fun h => absurd h (by simp)⟩

def code (record : Record) : ReplayCode :=
  match record.data with
  | none => record.storedCode
  | some data => if data.facadeCode = .ok then data.code else data.facadeCode

def ok (record : Record) : Bool := record.code == .ok

/-- `detail::ready_code`. -/
def readyCode (record : Record) : ReplayCode :=
  match record.data with
  | none => record.storedCode
  | some data => data.facadeCode

/-- A count of the record, zero unless its facade is in order. -/
def countOf (record : Record) (field : RecordData → UInt64) : UInt64 :=
  match record.data with
  | none => 0
  | some data => if data.facadeCode = .ok then field data else 0

def observationCount (record : Record) : UInt64 := record.countOf RecordData.observations

def hostEventCount (record : Record) : UInt64 := record.countOf RecordData.hostEvents

def inputCount (record : Record) : UInt64 := record.countOf RecordData.inputCount

def captureCount (record : Record) : UInt64 := record.countOf RecordData.captures

def traceRecordCount (record : Record) : UInt64 := record.countOf RecordData.traceRecords

/-- `capture_report().retained_bytes`. -/
def diagnosticBytes (record : Record) : UInt64 := record.countOf RecordData.diagnosticBytes

/-- `storage_report().logical_bytes`; it does not look at the facade. -/
def logicalBytes (record : Record) : UInt64 :=
  match record.data with
  | none => 0
  | some data => data.logicalBytes

end Record

/-! ### The data of a checkpoint -/

structure CheckpointData where
  state : List UInt8 := []
  stateSchema : UInt64 := 0
  stateSize : UInt64 := 0
  stateHash : UInt64 := 0
  previousSegmentCount : UInt64 := 0
  previousInputPosition : UInt64 := 0
  previousPrefixHash : UInt64 := 0
  previousTranscriptPrefixHash : UInt64 := 0
  segmentCount : UInt64 := 0
  segmentRecordHash : UInt64 := 0
  segmentInputCount : UInt64 := 0
  segmentInputHash : UInt64 := 0
  segmentTranscriptHash : UInt64 := 0
  inputPosition : UInt64 := 0
  boundaryHash : UInt64 := 0
  prefixHash : UInt64 := 0
  transcriptPrefixHash : UInt64 := 0
  checkpointHash : UInt64 := 0
  deriving DecidableEq, Repr

/-- The hash `OwnedCheckpointState::Copy` computes while it copies. -/
def hashState (schema : UInt64) (state : List UInt8) : UInt64 :=
  mixAll (mixAll (beginHash "rund.replay.checkpoint.state")
    [schema, UInt64.ofNat state.length]) (state.map UInt8.toUInt64)

namespace CheckpointData

def hashBoundary (data : CheckpointData) : UInt64 :=
  mixAll (beginHash "rund.replay.checkpoint.boundary")
    [data.segmentCount, data.segmentRecordHash, data.segmentInputCount, data.segmentInputHash,
      data.segmentTranscriptHash]

def hashPrefix (data : CheckpointData) (boundary : UInt64) : UInt64 :=
  mixAll (beginHash "rund.replay.checkpoint.prefix")
    [data.previousPrefixHash, data.segmentCount, boundary]

def hashTranscript (data : CheckpointData) : UInt64 :=
  mixAll (beginHash "rund.replay.checkpoint.transcript")
    [data.previousTranscriptPrefixHash, data.previousInputPosition, data.segmentInputCount,
      data.segmentInputHash, data.segmentTranscriptHash, data.inputPosition]

def hashCheckpoint (data : CheckpointData) : UInt64 :=
  mixAll (beginHash "rund.replay.checkpoint")
    [data.segmentCount, data.inputPosition, data.stateSize, data.stateHash, data.boundaryHash,
      data.prefixHash, data.transcriptPrefixHash]

/-- The hashes of the chain, filled in one after the other. -/
def chain (data : CheckpointData) : CheckpointData :=
  let boundary := data.hashBoundary
  let chained : CheckpointData :=
    { data with
      boundaryHash := boundary
      prefixHash := data.hashPrefix boundary
      transcriptPrefixHash := data.hashTranscript }
  { chained with checkpointHash := chained.hashCheckpoint }

/-- The constructor of `Checkpoint::Data`: the chain after `previous`, which is all zero for a
first segment.  When a counter overflows it stops before the hashes. -/
def make (previous : CheckpointData) (record : RecordData) (schema : UInt64)
    (state : List UInt8) : CheckpointData :=
  let opened : CheckpointData :=
    { state := state
      stateSchema := schema
      stateSize := UInt64.ofNat state.length
      stateHash := hashState schema state
      previousSegmentCount := previous.segmentCount
      previousInputPosition := previous.inputPosition
      previousPrefixHash := previous.prefixHash
      previousTranscriptPrefixHash := previous.transcriptPrefixHash
      segmentRecordHash := record.replayHash
      segmentInputCount := record.inputCount
      segmentInputHash := record.inputHash
      segmentTranscriptHash := record.transcriptHash }
  if checkedAdd previous.segmentCount 1 = false then opened
  else
    let counted := { opened with segmentCount := previous.segmentCount + 1 }
    if checkedAdd previous.inputPosition record.inputCount = false then counted
    else chain { counted with inputPosition := previous.inputPosition + record.inputCount }

def valid (data : CheckpointData) : Bool :=
  data.segmentCount != 0 && data.stateSchema != 0 &&
    data.stateSize == UInt64.ofNat data.state.length &&
    checkedAdd data.previousSegmentCount 1 && data.previousSegmentCount + 1 == data.segmentCount &&
    checkedAdd data.previousInputPosition data.segmentInputCount &&
    data.previousInputPosition + data.segmentInputCount == data.inputPosition &&
    !(data.previousSegmentCount == 0 && (data.previousInputPosition != 0 ||
      data.previousPrefixHash != 0 || data.previousTranscriptPrefixHash != 0)) &&
    data.boundaryHash == data.hashBoundary &&
    data.prefixHash == data.hashPrefix data.hashBoundary &&
    data.transcriptPrefixHash == data.hashTranscript &&
    data.checkpointHash == data.hashCheckpoint

end CheckpointData

/-! ### Checkpoints -/

structure Checkpoint where
  data : Option CheckpointData := none
  storedCode : ReplayCode := .checkpointMovedFrom
  deriving DecidableEq, Repr

namespace Checkpoint

def code (checkpoint : Checkpoint) : ReplayCode :=
  match checkpoint.data with
  | some data => if data.valid then .ok else .checkpointInvalid
  | none =>
      if checkpoint.storedCode = .ok then .checkpointMovedFrom else checkpoint.storedCode

def ok (checkpoint : Checkpoint) : Bool := checkpoint.code == .ok

/-- A field of a checkpoint in order, and nothing of any other. -/
def fieldOf {α : Type} (checkpoint : Checkpoint) (field : CheckpointData → α) (absent : α) : α :=
  match checkpoint.data with
  | some data => if data.valid then field data else absent
  | none => absent

def segmentCount (checkpoint : Checkpoint) : UInt64 :=
  checkpoint.fieldOf CheckpointData.segmentCount 0

def schema (checkpoint : Checkpoint) : UInt64 := checkpoint.fieldOf CheckpointData.stateSchema 0

/-- `state_size()`, a `std::size_t`. -/
def stateSize (checkpoint : Checkpoint) : Nat :=
  checkpoint.fieldOf (fun data => data.state.length) 0

/-- A checkpoint that is only a failure. -/
def failed (code : ReplayCode) : Checkpoint := { storedCode := code }

end Checkpoint

/-! ### Bindings -/

/-- `Binding`; `restores` says whether it was given a callback to restore with. -/
structure Binding where
  schema : UInt64 := 0
  restores : Bool := false
  checkpointable : Bool := false
  deriving DecidableEq, Repr

namespace Binding

def code (binding : Binding) : ReplayCode :=
  if binding.checkpointable && binding.schema == 0 then .stateSchemaInvalid
  else if binding.checkpointable && !binding.restores then .checkpointRestoreInvalid
  else .ok

/-- What `checkpoint` and `advance` ask of the binding before anything else. -/
def admits (binding : Binding) : Checked Checkpoint Unit := do
  require (binding.code = .ok) (.failed binding.code)
  require (binding.checkpointable = true) (.failed .stateSchemaInvalid)

/-- What they ask of the segment; the data of a record that is ready is there. -/
def segmentOf (record : Record) : Checked Checkpoint RecordData := do
  require (record.readyCode = .ok) (.failed record.readyCode)
  match record.data with
  | none => Except.error .outOfBounds
  | some data =>
      require (data.code = .ok) (.failed .checkpointSegmentFailed)
      pure data

/-- `Binding::checkpoint`, the checkpoint after a first segment. -/
def checkpoint {ε : Type} (binding : Binding) (completed : Record) (state : List UInt8)
    (allocates : Bool) : Checked ε Checkpoint :=
  call do
    binding.admits
    let record ← segmentOf completed
    require (record.startHash = genesisStartHash) (.failed .recordStartInvalid)
    require (allocates = true) (.failed .allocationFailed)
    pure { data := some (.make {} record binding.schema state) }

/-- `Binding::advance`, the checkpoint after a segment that began at `previous`. -/
def advance {ε : Type} (binding : Binding) (previous : Checkpoint) (completed : Record)
    (state : List UInt8) (allocates : Bool) : Checked ε Checkpoint :=
  call do
    binding.admits
    match previous.data with
    | none => leave (.failed previous.code)
    | some data =>
        require (data.valid = true) (.failed previous.code)
        let record ← segmentOf completed
        require (previous.schema = binding.schema) (.failed .stateSchemaInvalid)
        require (record.startHash = startHash data.checkpointHash) (.failed .recordStartMismatch)
        require (checkedAdd data.segmentCount 1 = true ∧
          checkedAdd data.inputPosition record.inputCount = true)
          (.failed .checkpointPositionOverflow)
        require (allocates = true) (.failed .allocationFailed)
        pure { data := some (.make data record binding.schema state) }

end Binding

/-! ### Checkpoints that are well -/

namespace Checkpoint

theorem ok_iff {checkpoint : Checkpoint} :
    checkpoint.ok = true ↔ ∃ data, checkpoint.data = some data ∧ data.valid = true := by
  rw [ok, code, beq_iff_eq]
  rcases h : checkpoint.data with - | data
  · by_cases hcode : checkpoint.storedCode = .ok
    · simp only [hcode, if_true]
      exact ⟨fun h => absurd h (by decide), fun ⟨_, h, _⟩ => absurd h (by simp)⟩
    · simp only [hcode, if_false]
      exact ⟨fun h => absurd h (by simp), fun ⟨_, h, _⟩ => absurd h (by simp)⟩
  · by_cases hvalid : data.valid = true
    · simp [hvalid]
    · simp only [hvalid, Option.some.injEq]
      exact ⟨fun h => absurd h (by decide), fun ⟨_, hd, hv⟩ => absurd (hd ▸ hv) hvalid⟩

end Checkpoint

end RunD
