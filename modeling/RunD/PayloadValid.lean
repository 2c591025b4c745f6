/-
When a payload archive is valid.

`validArchive` goes over the chunks once and over the records once.  Every
piece of a record is a whole chunk; the content of a chunk is compared with
its hash where the chunk is met first, and the bytes of a record are hashed
again unless the record is one chunk whose hash is the one of the record.
-/
import RunD.Payload

namespace RunD

namespace EventKind

def none : EventKind := ⟨0⟩
def timerSleep : EventKind := ⟨3⟩
def ioReady : EventKind := ⟨4⟩
def ioRead : EventKind := ⟨5⟩
def ioWrite : EventKind := ⟨6⟩
def netRecv : EventKind := ⟨9⟩
def netRecvDatagram : EventKind := ⟨19⟩
def netRecvVectored : EventKind := ⟨23⟩

end EventKind

def isPayloadKind (kind : EventKind) : Bool := kind == .ioRead || kind == .ioWrite

/-! ### Diagnostics -/

def ingressKind (kind : EventKind) : Bool :=
  kind == .netRecv || kind == .netRecvDatagram || kind == .netRecvVectored

/-- What one record adds to `DiagnosticHash`. -/
def diagnosticRecordWords (bytes : List UInt8) (record : DiagnosticRecord) : List UInt64 :=
  [0, record.eventSequence, record.kind.value.toUInt64, record.offset, record.byteCount,
      record.payloadHash] ++
    if record.offset.toNat ≤ bytes.length ∧
        record.byteCount.toNat ≤ bytes.length - record.offset.toNat then
      ((bytes.drop record.offset.toNat).take record.byteCount.toNat).map UInt8.toUInt64
    else []

def diagnosticHash (archive : DiagnosticArchive) : UInt64 :=
  if archive.records = [] ∧ archive.bytes = [] ∧ archive.report = {} then 0
  else
    mixAll kFnvOffset
      ([archive.report.retainedBytes, archive.report.retainedRecords,
          archive.report.evictedRecords, archive.report.droppedRecords,
          UInt64.ofNat archive.records.length] ++
        archive.records.flatMap (diagnosticRecordWords archive.bytes))

section Hashed

variable (H : ByteHasher)

/-- The loop of `ValidDiagnosticArchive`, with the end and the sequence of the record before. -/
def checkDiagnosticRecord (bytes : List UInt8) (record : DiagnosticRecord)
    (now : UInt64 × UInt64) : Checked Unit (UInt64 × UInt64) := do
  require (ingressKind record.kind = true ∧ record.eventSequence ≠ 0 ∧
    ¬ record.eventSequence ≤ now.2 ∧ record.byteCount ≠ 0 ∧ record.offset = now.1 ∧
    checkedAdd now.1 record.byteCount = true) ()
  let offset := now.1 + record.byteCount
  require (¬ offset.toNat > bytes.length) ()
  let slice := (bytes.drop record.offset.toNat).take record.byteCount.toNat
  require (H.hashBytes slice = record.payloadHash) ()
  pure (offset, record.eventSequence)

def checkDiagnosticArchive (archive : DiagnosticArchive) : Checked Unit Unit :=
  if archive.records = [] then
    require (archive.bytes = [] ∧ archive.report.retainedBytes = 0 ∧
      archive.report.retainedRecords = 0 ∧ archive.hash = diagnosticHash archive) ()
  else do
    require (archive.report.retainedRecords.toNat = archive.records.length ∧
      archive.report.retainedBytes.toNat = archive.bytes.length ∧
      archive.bytes ≠ [] ∧ archive.hash ≠ 0) ()
    let final ← forEach archive.records (checkDiagnosticRecord H archive.bytes) (0, 0)
    require (final.1.toNat = archive.bytes.length ∧ diagnosticHash archive = archive.hash) ()

/-! ### Records -/

/-- The fields of a record that its role allows. -/
def recordFieldsValid (metadata : PayloadRecord) : Bool :=
  match metadata.role with
  | .host =>
      isPayloadKind metadata.kind && metadata.inputSource == 0 && metadata.inputSchema == 0 &&
        metadata.inputSequence == 0 && metadata.sourceEventOffset == 0 &&
        metadata.sourceEventCount == 0 && metadata.sourcePayloadOffset == 0 &&
        metadata.sourcePayloadCount == 0 && metadata.sourceHash == 0
  | .input =>
      metadata.eventSequence == 0 && metadata.kind == .none && metadata.inputSource != 0 &&
        metadata.inputSchema != 0 && metadata.sourceHash != 0 &&
        checkedAdd metadata.sourceEventOffset metadata.sourceEventCount &&
        checkedAdd metadata.sourcePayloadOffset metadata.sourcePayloadCount

/-- `WholeChunk`: the record is one chunk with the hash of the record. -/
def wholeChunk (record : ArchiveRecord) (chunks : List ArchiveChunk) : Bool :=
  match record.pieces with
  | [piece] =>
      match chunks[piece.chunkId.toNat]? with
      | none => false
      | some chunk =>
          piece.offset == 0 && piece.size.toUInt64 == record.metadata.completedBytes &&
            chunk.uncompressedBytes == record.metadata.completedBytes &&
            chunk.uncompressedHash == record.metadata.payloadHash
  | _ => false

/-- What the loop over the pieces of a record keeps. -/
structure PieceCheck where
  pieceBytes : UInt64
  payloadHash : Option H.State
  recordHash : UInt64
  referenced : List Bool

/-- One turn of the loop over the pieces of a record. -/
def checkPiece (chunks : List ArchiveChunk) (spilled : Bool) (piece : ArchivePiece)
    (now : PieceCheck H) : Checked Unit (PieceCheck H) := do
  require (piece.chunkId.toNat < chunks.length) ()
  let chunk ← fetch chunks piece.chunkId.toNat
  require (piece.offset = 0 ∧ piece.size.toUInt64 = chunk.uncompressedBytes ∧
    checkedAdd now.pieceBytes piece.size.toUInt64 = true) ()
  let pieceBytes := now.pieceBytes + piece.size.toUInt64
  let recordHash := appendRecordHash now.recordHash chunk.uncompressedHash chunk.uncompressedBytes
  let seen ← fetch now.referenced piece.chunkId.toNat
  let referenced ← assign now.referenced piece.chunkId.toNat true
  if spilled then
    pure { now with pieceBytes := pieceBytes, recordHash := recordHash, referenced := referenced }
  else
    let valid : Option (Option H.State) :=
      if seen = false then
        verifyChunk H chunk.uncompressedHash chunk.uncompressedBytes chunk.codec chunk.encoded
          now.payloadHash
      else
        match now.payloadHash with
        | none => some none
        | some state =>
            (appendDecodedBytes H chunk.uncompressedBytes chunk.codec chunk.encoded state).map some
    match valid with
    | none => leave ()
    | some payloadHash => pure ⟨pieceBytes, payloadHash, recordHash, referenced⟩

/-- What the loop over the records keeps. -/
structure RecordCheck where
  logicalBytes : UInt64
  archiveHash : UInt64
  referenced : List Bool
  deriving DecidableEq, Repr

/-- One turn of the loop over the records. -/
def checkRecord (chunks : List ArchiveChunk) (spilled : Bool) (record : ArchiveRecord)
    (now : RecordCheck) : Checked Unit RecordCheck := do
  let metadata := record.metadata
  require (recordFieldsValid metadata = true ∧
    checkedAdd now.logicalBytes metadata.completedBytes = true) ()
  let payloadHash := if ¬ spilled ∧ wholeChunk record chunks = false then some H.start else none
  let final ← forEach record.pieces (checkPiece H chunks spilled)
    { pieceBytes := 0
      payloadHash := payloadHash
      recordHash := beginRecordHash metadata metadata.completedBytes
        (UInt64.ofNat record.pieces.length)
      referenced := now.referenced }
  require (final.pieceBytes = metadata.completedBytes ∧
    ∀ state ∈ final.payloadHash, H.finish state = metadata.payloadHash) ()
  pure
    { logicalBytes := now.logicalBytes + metadata.completedBytes
      archiveHash := mix now.archiveHash final.recordHash
      referenced := final.referenced }

/-! ### Chunks -/

/-- One turn of the loop over the chunks, with the index of the chunk and the bytes before. -/
def checkChunk (storage : StorageReport) (spilled : Bool) (chunk : ArchiveChunk)
    (now : Nat × UInt64) : Checked Unit (Nat × UInt64) := do
  require (chunk.chunkId.toNat = now.1 ∧ ¬ chunk.uncompressedBytes.toNat > kChunkBytes ∧
    ¬ chunk.encodedBytes.toNat > kChunkBytes ∧ chunk.spilled = spilled ∧
    checkedAdd now.2 chunk.encodedBytes = true) ()
  if ¬ spilled then
    require (chunk.encodedBytes.toNat = chunk.encoded.length ∧ chunk.segmentIndex = 0 ∧
      chunk.segmentOffset = 0 ∧ chunk.segmentRecordBytes = 0) ()
  else
    require (chunk.encoded = [] ∧ chunk.segmentRecordBytes ≠ 0 ∧
      ¬ chunk.segmentRecordBytes.toNat > 2 * kChunkBytes ∧
      ¬ chunk.segmentIndex.toUInt64 ≥ storage.segmentCount ∧
      checkedAdd chunk.segmentOffset chunk.segmentRecordBytes = true) ()
  pure (now.1 + 1, now.2 + chunk.encodedBytes)

/-! ### The archive -/

/-- What an archive without records must look like. -/
def emptyArchiveValid (archive : PayloadArchive) : Bool :=
  archive.chunks == [] && archive.payloadHash == 0 && archive.storage.logicalBytes == 0 &&
    archive.storage.encodedBytes == 0 && archive.storage.retainedBytes == 0 &&
    archive.storage.copiedBytes == 0 && archive.storage.physicalBytes == 0 &&
    archive.storage.allocatedBytes == 0 && archive.storage.reservedBytes == 0 &&
    archive.storage.growths == 0 && archive.storage.chunkCount == 0 &&
    archive.storage.segmentCount == 0 && !archive.spillGeneration

/-- The report that the mode of the storage allows. -/
def storageModeValid (archive : PayloadArchive) : Bool :=
  match archive.storage.mode with
  | .spill =>
      archive.storage.retainedBytes == 0 && archive.storage.copiedBytes == 0 &&
        archive.storage.reservedBytes == 0 && archive.spillGeneration
  | .memory =>
      archive.storage.retainedBytes == archive.storage.encodedBytes &&
        (archive.storage.copiedBytes == 0 ||
          archive.storage.copiedBytes == archive.storage.encodedBytes) &&
        archive.storage.physicalBytes == 0 && archive.storage.allocatedBytes == 0 &&
        archive.storage.reservedBytes == 0 && !archive.spillGeneration

/-- `sizeof(std::uint64_t) * 5u + sizeof(std::uint8_t)`. -/
def kSpillRecordHeaderBytes : UInt64 := 41

/-- The last comparison for an archive that was spilled. -/
def spillBytesValid (archive : PayloadArchive) (encodedBytes : UInt64) : Bool :=
  let chunkCount := UInt64.ofNat archive.chunks.length
  let headerBytes := chunkCount * kSpillRecordHeaderBytes
  checkedMul chunkCount kSpillRecordHeaderBytes && checkedAdd encodedBytes headerBytes &&
    archive.storage.physicalBytes == encodedBytes + headerBytes &&
    decide (archive.storage.allocatedBytes ≥ archive.storage.physicalBytes)

def checkArchive (archive : PayloadArchive) : Checked Unit Unit := do
  checkDiagnosticArchive H archive.diagnostic
  if archive.records = [] then require (emptyArchiveValid archive = true) ()
  else
    require (archive.payloadHash ≠ 0 ∧ ¬ archive.chunks.length > 0xffffffff ∧
      storageModeValid archive = true) ()
    let spilled := decide (archive.storage.mode = .spill)
    let encoded ← forEach archive.chunks (checkChunk archive.storage spilled) (0, 0)
    let final ← forEach archive.records (checkRecord H archive.chunks spilled)
      { logicalBytes := 0
        archiveHash := mix kFnvOffset (UInt64.ofNat archive.records.length)
        referenced := List.replicate archive.chunks.length false }
    require (final.referenced.all id = true) ()
    require (final.logicalBytes = archive.storage.logicalBytes ∧
      encoded.2 = archive.storage.encodedBytes ∧
      archive.storage.chunkCount.toNat = archive.chunks.length ∧
      (if spilled then spillBytesValid archive encoded.2 = true
        else archive.storage.segmentCount = 0) ∧
      final.archiveHash = archive.payloadHash) ()

/-- `ValidArchive`. -/
def validArchive (archive : PayloadArchive) : Bool := (checkArchive H archive).isOk

end Hashed

end RunD
