/-
Binding the payloads of a replay to its events.

An archive of payloads was kept beside a list of host events.  Before the two
are used together, one pass over the records of the archive and over the events
checks that every event that needs a payload has its record, in order, that the
inputs name source ranges whose hash can be computed again, and that every
diagnostic record has its event.
-/
import RunD.PayloadValid

namespace RunD.PayloadBind

/-! ### Events -/

/-- `Status::Ok`. -/
def statusOk : HostStatus := ⟨0⟩

/-- `EventRequiresPayload`. -/
def eventRequiresPayload (event : HostEvent) : Bool :=
  isPayloadKind event.kind && event.status == statusOk

/-! ### The hash of a source range -/

/-- `SourcePayloadBinding`. -/
structure SourcePayloadBinding where
  eventSequence : UInt64 := 0
  kind : EventKind := ⟨0⟩
  completedBytes : UInt64 := 0
  payloadHash : UInt64 := 0
  deriving DecidableEq, Repr

/-- The constructor of `SourceRangeHasher`. -/
def beginSourceRange (eventOffset eventCount payloadOffset payloadCount : UInt64) : UInt64 :=
  mixAll kFnvOffset [0x72756e642e737263, eventOffset, eventCount, payloadOffset, payloadCount]

/-- `AppendPayload`. -/
def appendPayload (hash : UInt64) (payload : SourcePayloadBinding) : UInt64 :=
  mixAll hash [payload.eventSequence, payload.kind.value.toUInt64, payload.completedBytes,
    payload.payloadHash]

/-- The first loop of `ComputeSourceRangeHash`: the events are the next ones of the root task. -/
def hashSourceEvents : List HostEvent → UInt64 → UInt64 → Option UInt64
  | [], _, hash => some hash
  | event :: events, expectedSequence, hash =>
      if checkedAdd expectedSequence 1 = false ∨ event.taskId ≠ 0 ∨
          event.sequence ≠ expectedSequence + 1 then none
      else hashSourceEvents events (expectedSequence + 1) (mix hash (hashEvent event))

section Next

variable {σ : Type} (next : σ → Option (SourcePayloadBinding × σ))

/-- The second loop of `ComputeSourceRangeHash`, with the events from the event index on. -/
def hashSourcePayloads : Nat → σ → List HostEvent → UInt64 → Option (UInt64 × σ)
  | 0, state, _, hash => some (hash, state)
  | count + 1, state, events, hash =>
      match next state with
      | none => none
      | some (payload, state) =>
          match events.dropWhile fun event => event.sequence < payload.eventSequence with
          | [] => none
          | event :: events =>
              if event.sequence ≠ payload.eventSequence ∨ event.kind ≠ payload.kind ∨
                  event.completedBytes ≠ payload.completedBytes ∨
                  event.payloadHash ≠ payload.payloadHash then none
              else hashSourcePayloads count state events (appendPayload hash payload)

/-- `ComputeSourceRangeHash`, which takes its payloads one by one from `next`. -/
def computeSourceRangeHash (eventOffset : UInt64) (events : List HostEvent)
    (payloadOffset payloadCount : UInt64) (state : σ) : Option (UInt64 × σ) :=
  if checkedAdd payloadOffset payloadCount = false then none
  else
    match hashSourceEvents events eventOffset (beginSourceRange eventOffset
        (UInt64.ofNat events.length) payloadOffset payloadCount) with
    | none => none
    | some hash => hashSourcePayloads next payloadCount.toNat state events hash

end Next

/-! ### The cursor over the host payloads -/

/-- `ArchiveHostCursor`: the records gone over, where to stop, and the host records among those
gone over. -/
structure ArchiveHostCursor where
  records : List ArchiveRecord
  physical : Nat := 0
  physicalLimit : Nat := 0
  logical : Nat := 0
  deriving DecidableEq, Repr

/-- What the cursor returns of a host record. -/
def payloadBinding (metadata : PayloadRecord) : SourcePayloadBinding where
  eventSequence := metadata.eventSequence
  kind := metadata.kind
  completedBytes := metadata.completedBytes
  payloadHash := metadata.payloadHash

namespace ArchiveHostCursor

/-- `Limit`. -/
def limit (cursor : ArchiveHostCursor) (physicalLimit : Nat) : Option ArchiveHostCursor :=
  if physicalLimit < cursor.physical ∨ physicalLimit > cursor.records.length then none
  else some { cursor with physicalLimit := physicalLimit }

/-- The loop of `Next`, which goes over one record in each turn. -/
def nextFrom : Nat → ArchiveHostCursor → Option (SourcePayloadBinding × ArchiveHostCursor)
  | 0, _ => none
  | turns + 1, cursor =>
      match cursor.records[cursor.physical]? with
      | none => none
      | some record =>
          if record.metadata.role ≠ .host then
            nextFrom turns { cursor with physical := cursor.physical + 1 }
          else
            some (payloadBinding record.metadata,
              { cursor with physical := cursor.physical + 1, logical := cursor.logical + 1 })

/-- `Next`. -/
def next (cursor : ArchiveHostCursor) : Option (SourcePayloadBinding × ArchiveHostCursor) :=
  cursor.nextFrom (cursor.physicalLimit - cursor.physical)

/-- The loop of `Seek`, in which every turn adds one to the logical position. -/
def seekFrom : Nat → ArchiveHostCursor → Option ArchiveHostCursor
  | 0, cursor => some cursor
  | turns + 1, cursor =>
      match cursor.next with
      | none => none
      | some (_, cursor) => seekFrom turns cursor

/-- `Seek`. -/
def seek (cursor : ArchiveHostCursor) (offset : Nat) : Option ArchiveHostCursor :=
  if offset < cursor.logical then none else cursor.seekFrom (offset - cursor.logical)

end ArchiveHostCursor

/-! ### Binding -/

/-- `SourceRangeHash`: the hash, the cursor and the end of the event range. -/
def sourceRangeHash (events : List HostEvent) (metadata : PayloadRecord) (inputRecordIndex : Nat)
    (payloads : ArchiveHostCursor) (eventEnd : UInt64) :
    Option (UInt64 × ArchiveHostCursor × UInt64) :=
  if metadata.sourceEventOffset.toNat > events.length ∨
      metadata.sourceEventCount.toNat > events.length - metadata.sourceEventOffset.toNat ∨
      metadata.sourceEventOffset < eventEnd then none
  else do
    let payloads ← payloads.limit inputRecordIndex
    let payloads ← payloads.seek metadata.sourcePayloadOffset.toNat
    let sourceEvents := (events.drop metadata.sourceEventOffset.toNat).take
      metadata.sourceEventCount.toNat
    let (sourceHash, payloads) ← computeSourceRangeHash ArchiveHostCursor.next
      metadata.sourceEventOffset sourceEvents metadata.sourcePayloadOffset
      metadata.sourcePayloadCount payloads
    if checkedAdd metadata.sourceEventOffset metadata.sourceEventCount = false then none
    else
      some (sourceHash, payloads, metadata.sourceEventOffset + metadata.sourceEventCount)

/-- What the loop over the records of the archive keeps; of the events those from the host event
index on. -/
structure BindState where
  sourcePayloads : ArchiveHostCursor
  sourceEventEnd : UInt64 := 0
  hostEvents : List HostEvent
  lastHostPayloadSequence : UInt64 := 0

/-- The events before a sequence are skipped; none of them may need a payload. -/
def skipEvents (sequence : UInt64) : List HostEvent → Except ReplayCode (List HostEvent)
  | [] => .ok []
  | event :: events =>
      if event.sequence < sequence then
        if eventRequiresPayload event = true then .error .hostPayloadMissing
        else skipEvents sequence events
      else .ok (event :: events)

/-- A host record is bound to the next event that needs a payload. -/
def bindHost (metadata : PayloadRecord) (now : BindState) : Except ReplayCode BindState :=
  if metadata.eventSequence ≤ now.lastHostPayloadSequence then .error .hostDuplicateField
  else
    match skipEvents metadata.eventSequence now.hostEvents with
    | .error code => .error code
    | .ok [] => .error .hostPayloadMissing
    | .ok (event :: events) =>
        if event.sequence ≠ metadata.eventSequence then .error .hostPayloadMissing
        else if eventRequiresPayload event = false ∨ event.kind ≠ metadata.kind ∨
            event.completedBytes ≠ metadata.completedBytes ∨
            event.payloadHash ≠ metadata.payloadHash then .error .hostPayloadHashInvalid
        else
          .ok { now with hostEvents := events, lastHostPayloadSequence := metadata.eventSequence }

/-- One turn of the loop over the records. -/
def bindRecord (events : List HostEvent) (recordIndex : Nat) (metadata : PayloadRecord)
    (now : BindState) : Except ReplayCode BindState :=
  match metadata.role with
  | .input =>
      match sourceRangeHash events metadata recordIndex now.sourcePayloads now.sourceEventEnd with
      | none => .error .inputSourceHashMismatch
      | some (sourceHash, payloads, eventEnd) =>
          if sourceHash ≠ metadata.sourceHash then .error .inputSourceHashMismatch
          else .ok { now with sourcePayloads := payloads, sourceEventEnd := eventEnd }
  | .host => bindHost metadata now

/-- The loop over the records, from an index on. -/
def bindRecords (events : List HostEvent) : Nat → List ArchiveRecord → BindState →
    Except ReplayCode BindState
  | _, [], now => .ok now
  | recordIndex, record :: records, now =>
      match bindRecord events recordIndex record.metadata now with
      | .error code => .error code
      | .ok now => bindRecords events (recordIndex + 1) records now

/-- The loop over the diagnostic records, with the events from the diagnostic event index on. -/
def bindDiagnostics : List DiagnosticRecord → List HostEvent → UInt64 → Except ReplayCode Unit
  | [], _, _ => .ok ()
  | diagnostic :: diagnostics, events, lastDiagnosticSequence =>
      if diagnostic.eventSequence ≤ lastDiagnosticSequence then
        .error .hostDiagnosticEventMismatch
      else
        match events.dropWhile fun event => event.sequence < diagnostic.eventSequence with
        | [] => .error .hostDiagnosticEventMismatch
        | event :: events =>
            if event.sequence ≠ diagnostic.eventSequence ∨ event.kind ≠ diagnostic.kind ∨
                event.status ≠ statusOk ∨ event.completedBytes ≠ diagnostic.byteCount ∨
                event.payloadHash ≠ diagnostic.payloadHash then
              .error .hostDiagnosticEventMismatch
            else bindDiagnostics diagnostics events diagnostic.eventSequence

/-- `BindPayloads`. -/
def bindPayloads (events : List HostEvent) (archive : PayloadArchive) : ReplayCode :=
  match bindRecords events 0 archive.records
      { sourcePayloads := { records := archive.records }, hostEvents := events } with
  | .error code => code
  | .ok now =>
      if now.hostEvents.any eventRequiresPayload = true then .hostPayloadMissing
      else
        match bindDiagnostics archive.diagnostic.records events 0 with
        | .error code => code
        | .ok () => .ok

end RunD.PayloadBind
