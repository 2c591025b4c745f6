/-
The events of a host: what was asked of the operating system, and how a list
of such events becomes an artifact and is read back.

Of an event only the fields that are not zero are written, behind a word that
says which ones these are.  Its number and its time are written as what is
added to those of the event before it.
-/
import RunD.ReplayHash
import RunD.RunningFormat

namespace RunD

/-! ### Events -/

/-- `host::EventKind`, an enumeration over 16 bits. -/
structure EventKind where
  value : UInt16
  deriving DecidableEq, Repr

/-- `host::Status`, an enumeration over 16 bits. -/
structure HostStatus where
  value : UInt16
  deriving DecidableEq, Repr

/-- `host::Event`. -/
structure HostEvent where
  sequence : UInt64 := 0
  kind : EventKind := ⟨0⟩
  status : HostStatus := ⟨1⟩
  taskId : UInt64 := 0
  logicalTimeNs : UInt64 := 0
  streamId : UInt64 := 0
  drawId : UInt64 := 0
  hostHandleId : UInt64 := 0
  offset : UInt64 := 0
  requestedBytes : UInt64 := 0
  completedBytes : UInt64 := 0
  nativeErrno : Int32 := 0
  nameHash : UInt64 := 0
  pathHash : UInt64 := 0
  payloadHash : UInt64 := 0
  deriving DecidableEq, Repr

/-- The number of names in `kEventNames`. -/
def kEventNameCount : UInt16 := 24

/-- `event_index`. -/
def eventIndex (kind : EventKind) : UInt16 :=
  if kind.value = 0 ∨ kind.value > kEventNameCount then kEventNameCount else kind.value - 1

def knownReplayKind (kind : EventKind) : Bool := eventIndex kind < kEventNameCount

def knownKind (value : UInt64) : Bool :=
  decide (value ≤ 0xffff) && knownReplayKind ⟨value.toUInt16⟩

/-- `KnownStatus`: every value up to `Unsupported` is one of the statuses. -/
def knownStatus (value : UInt64) : Bool := value ≤ 6

/-- `hash_event`. -/
def hashEvent (event : HostEvent) : UInt64 :=
  mixAll kFnvOffset
    [event.sequence, event.kind.value.toUInt64, event.status.value.toUInt64, event.taskId,
      event.logicalTimeNs, event.streamId, event.drawId, event.hostHandleId, event.offset,
      event.requestedBytes, event.completedBytes, event.nativeErrno.toUInt32.toUInt64,
      event.nameHash, event.pathHash, event.payloadHash]

/-- `hash_events`. -/
def hashEvents (events : List HostEvent) : UInt64 :=
  mixAll (mix kFnvOffset (UInt64.ofNat events.length)) (events.map hashEvent)

/-! ### The fields of an event -/

namespace EventField

def task : UInt16 := fieldBit 0
def logicalTimeDelta : UInt16 := fieldBit 1
def stream : UInt16 := fieldBit 2
def draw : UInt16 := fieldBit 3
def handle : UInt16 := fieldBit 4
def offset : UInt16 := fieldBit 5
def requested : UInt16 := fieldBit 6
def completed : UInt16 := fieldBit 7
def nativeErrno : UInt16 := fieldBit 8
def nameHash : UInt16 := fieldBit 9
def pathHash : UInt16 := fieldBit 10
def payloadHash : UInt16 := fieldBit 11

end EventField

open EventField in
def kEventFieldMask : UInt16 :=
  task ||| logicalTimeDelta ||| stream ||| draw ||| handle ||| offset ||| requested |||
    completed ||| nativeErrno ||| nameHash ||| pathHash ||| payloadHash

/-- `Fields`: which fields of an event are there. -/
def eventFields (event : HostEvent) (logicalTimeDelta : UInt64) : UInt16 :=
  flag (event.taskId != 0) EventField.task |||
    flag (logicalTimeDelta != 0) EventField.logicalTimeDelta |||
    flag (event.streamId != 0) EventField.stream |||
    flag (event.drawId != 0) EventField.draw |||
    flag (event.hostHandleId != 0) EventField.handle |||
    flag (event.offset != 0) EventField.offset |||
    flag (event.requestedBytes != 0) EventField.requested |||
    flag (event.completedBytes != 0) EventField.completed |||
    flag (event.nativeErrno != 0) EventField.nativeErrno |||
    flag (event.nameHash != 0) EventField.nameHash |||
    flag (event.pathHash != 0) EventField.pathHash |||
    flag (event.payloadHash != 0) EventField.payloadHash

def presentValue (fields field : UInt16) (value : UInt64) : Bool :=
  if hasFlag fields field then value != 0 else value == 0

/-! ### Writing -/

/-- The sequence and the logical time of the event before. -/
structure EventCursor where
  previousSequence : UInt64 := 0
  previousLogicalTime : UInt64 := 0
  deriving DecidableEq, Repr

open Writing in
/-- One turn of the loop of `WriteHostEvidence`. -/
def writeHostEvent (cursor : EventCursor) (event : HostEvent) : Writing EventCursor := do
  lift (require (knownKind event.kind.value.toUInt64 = true ∧
    knownStatus event.status.value.toUInt64 = true ∧
    ¬ event.sequence < cursor.previousSequence ∧
    ¬ event.logicalTimeNs < cursor.previousLogicalTime) .codecInvariantInvalid)
  let sequenceDelta := event.sequence - cursor.previousSequence
  let logicalTimeDelta := event.logicalTimeNs - cursor.previousLogicalTime
  let fields := eventFields event logicalTimeDelta
  varuint sequenceDelta
  varuint event.kind.value.toUInt64
  varuint event.status.value.toUInt64
  varuint fields.toUInt64
  writeIf (hasFlag fields EventField.task) (varuint event.taskId)
  writeIf (hasFlag fields EventField.logicalTimeDelta) (varuint logicalTimeDelta)
  writeIf (hasFlag fields EventField.stream) (varuint event.streamId)
  writeIf (hasFlag fields EventField.draw) (varuint event.drawId)
  writeIf (hasFlag fields EventField.handle) (varuint event.hostHandleId)
  writeIf (hasFlag fields EventField.offset) (varuint event.offset)
  writeIf (hasFlag fields EventField.requested) (varuint event.requestedBytes)
  writeIf (hasFlag fields EventField.completed) (varuint event.completedBytes)
  writeIf (hasFlag fields EventField.nativeErrno) (sint event.nativeErrno.toInt64)
  writeIf (hasFlag fields EventField.nameHash) (fixed64 event.nameHash)
  writeIf (hasFlag fields EventField.pathHash) (fixed64 event.pathHash)
  writeIf (hasFlag fields EventField.payloadHash) (fixed64 event.payloadHash)
  pure { previousSequence := event.sequence, previousLogicalTime := event.logicalTimeNs }

def writeHostEvidence (events : List HostEvent) (eventHash : UInt64) : Writing Unit := do
  Writing.varuint (UInt64.ofNat events.length)
  Writing.fixed64 eventHash
  let _ ← Writing.each writeHostEvent {} events
  pure ()

/-- `artifact::append` into a vector, which takes every span. -/
def vectorSink : Sink := { write := fun _ _ => true }

/-- `EncodeHostReplayEvents`; what fails leaves nothing behind. -/
def encodeHostReplayEvents (events : List HostEvent) : List UInt8 :=
  let encoded := Writing.save vectorSink do
    Writing.header .hostEvents
    writeHostEvidence events (hashEvents events)
  match encoded with
  | Except.ok bytes => bytes
  | Except.error _ => []

/-! ### Reading -/

/-- `HostReplayDecodeResult`, when its code is in order. -/
structure HostReplay where
  events : List HostEvent
  eventHash : UInt64
  deriving DecidableEq, Repr

open Reading in
/-- One turn of the loop of `ReadHostEvidence`. -/
def readHostEvent (cursor : EventCursor) : Reading ReplayCode (HostEvent × EventCursor) := do
  let bad := ReplayCode.hostBadValue
  let sequenceDelta ← readVaruint bad
  let kind ← readVaruint bad
  lift (require (knownKind kind = true) bad)
  let status ← readVaruint bad
  lift (require (knownStatus status = true) bad)
  let fieldsValue ← readVaruint bad
  lift (require (¬ fieldsValue > kEventFieldMask.toUInt64) bad)
  let fields := fieldsValue.toUInt16
  lift (require (checkedAdd cursor.previousSequence sequenceDelta = true) bad)
  let sequence := cursor.previousSequence + sequenceDelta
  let taskId ← readIf (hasFlag fields EventField.task) (readVaruint bad) 0
  let logicalTimeDelta ← readIf (hasFlag fields EventField.logicalTimeDelta) (readVaruint bad) 0
  let streamId ← readIf (hasFlag fields EventField.stream) (readVaruint bad) 0
  let drawId ← readIf (hasFlag fields EventField.draw) (readVaruint bad) 0
  let hostHandleId ← readIf (hasFlag fields EventField.handle) (readVaruint bad) 0
  let offset ← readIf (hasFlag fields EventField.offset) (readVaruint bad) 0
  let requestedBytes ← readIf (hasFlag fields EventField.requested) (readVaruint bad) 0
  let completedBytes ← readIf (hasFlag fields EventField.completed) (readVaruint bad) 0
  let nativeErrno ← readIf (hasFlag fields EventField.nativeErrno) (readSint bad) 0
  lift (require (¬ (nativeErrno < Int32.minValue.toInt64 ∨ nativeErrno > Int32.maxValue.toInt64))
    bad)
  let nameHash ← readIf (hasFlag fields EventField.nameHash) (readFixed64 bad) 0
  let pathHash ← readIf (hasFlag fields EventField.pathHash) (readFixed64 bad) 0
  let payloadHash ← readIf (hasFlag fields EventField.payloadHash) (readFixed64 bad) 0
  lift (require (presentValue fields EventField.task taskId = true ∧
    presentValue fields EventField.logicalTimeDelta logicalTimeDelta = true ∧
    presentValue fields EventField.stream streamId = true ∧
    presentValue fields EventField.draw drawId = true ∧
    presentValue fields EventField.handle hostHandleId = true ∧
    presentValue fields EventField.offset offset = true ∧
    presentValue fields EventField.requested requestedBytes = true ∧
    presentValue fields EventField.completed completedBytes = true ∧
    presentValue fields EventField.nativeErrno (if nativeErrno != 0 then 1 else 0) = true ∧
    presentValue fields EventField.nameHash nameHash = true ∧
    presentValue fields EventField.pathHash pathHash = true ∧
    presentValue fields EventField.payloadHash payloadHash = true) bad)
  lift (require (checkedAdd cursor.previousLogicalTime logicalTimeDelta = true) bad)
  let logicalTimeNs := cursor.previousLogicalTime + logicalTimeDelta
  pure ({ sequence := sequence, kind := ⟨kind.toUInt16⟩, status := ⟨status.toUInt16⟩,
          taskId := taskId, logicalTimeNs := logicalTimeNs, streamId := streamId, drawId := drawId,
          hostHandleId := hostHandleId, offset := offset, requestedBytes := requestedBytes,
          completedBytes := completedBytes, nativeErrno := nativeErrno.toInt32,
          nameHash := nameHash, pathHash := pathHash, payloadHash := payloadHash },
    { previousSequence := sequence, previousLogicalTime := logicalTimeNs })

open Reading in
def readHostEvidence (maxEntries : UInt64) : Reading ReplayCode HostReplay := do
  let count ← readVaruint .hostBadValue
  lift (require (¬ count > maxEntries) .codecEntryCapacityExceeded)
  let expectedHash ← readFixed64 .hostBadValue
  let (events, _) ← collect readHostEvent count.toNat {}
  let eventHash := hashEvents events
  lift (require (eventHash = expectedHash) .hostHashInvalid)
  pure { events := events, eventHash := eventHash }

/-- `DecodeHostReplayEvents`. -/
def decodeHostReplayEvents (encoded : List UInt8) : Checked ReplayCode HostReplay :=
  Reading.whole (do
    Reading.readHeader .hostEvents .hostBadHeader
    readHostEvidence (~~~0)) .hostBadValue encoded

end RunD
