/-
The store of recorded payloads, in memory.

A payload is cut into chunks.  A chunk that is kept already, or that came
earlier in the same payload, is not kept again; the others are staged and
handed to the backend together.  Everything that can fail does so before the
records change.  A store publishes its contents as an archive, and another
store can be built from the archive.

The capacity of a vector is what was reserved for it.  Whether the chunks of
an archive lie next to each other in one allocation is a matter of memory
layout; it is a parameter here and decides only how many bytes are reported as
copied.
-/
import RunD.Buffer
import RunD.PayloadIndex
import RunD.PayloadValid

namespace RunD

/-! ### Limits -/

def fitsBudget (current added budget : UInt64) : Bool :=
  checkedAdd current added && decide (current + added ≤ budget)

def fitsU32 (value : Nat) : Bool := value ≤ 0xffffffff

/-- How many chunks a payload is cut into. -/
def chunkCount (size : Nat) : Nat := if size = 0 then 0 else 1 + (size - 1) / kChunkBytes

/-- `payload::Limits`. -/
structure Limits where
  hosts : Nat := 0
  inputs : Nat := 0
  pieces : Nat := 0
  blobs : Nat := 0
  staged : Nat := 0
  bytes : UInt64 := 0
  deriving DecidableEq, Repr

def Limits.runtime (hosts inputs : UInt32) (bytes : UInt64) : Option Limits :=
  let records := hosts.toNat + inputs.toNat
  let pieces := records + bytes.toNat / kChunkBytes
  let staged := chunkCount bytes.toNat
  if records > 0xffffffff ∨ pieces > 0xffffffff ∨ staged > 0xffffffff ∨ bytes.toNat > kSizeMax then
    none
  else
    some { hosts := hosts.toNat, inputs := inputs.toNat, pieces := pieces, blobs := pieces,
           staged := staged, bytes := bytes }

/-- One turn of the loop of `Limits::archive`. -/
def Limits.countRecord (record : ArchiveRecord) (limits : Limits) : Checked Unit Limits := do
  let limits :=
    match record.metadata.role with
    | .host => { limits with hosts := limits.hosts + 1 }
    | .input => { limits with inputs := limits.inputs + 1 }
  require (¬ record.pieces.length > kSizeMax - limits.pieces) ()
  require (checkedAdd limits.bytes record.metadata.completedBytes = true) ()
  pure { limits with
    pieces := limits.pieces + record.pieces.length
    bytes := limits.bytes + record.metadata.completedBytes }

/-- `Limits::archive`; leaving stands for `nullopt`. -/
def Limits.archive (archive : PayloadArchive) : Checked Unit Limits := do
  let limits ← forEach archive.records Limits.countRecord {}
  let limits := { limits with blobs := archive.chunks.length }
  require (fitsU32 (limits.hosts + limits.inputs) = true ∧ fitsU32 limits.pieces = true ∧
    fitsU32 limits.blobs = true) ()
  pure limits

/-! ### The backend -/

/-- `payload::Memory`. -/
structure MemoryBlobs where
  blobs : Vec Blob := Vec.empty
  retainedBytes : UInt64 := 0
  encodedBytes : UInt64 := 0
  growths : UInt64 := 0

def MemoryBlobs.append (memory : MemoryBlobs) (blob : Blob) : MemoryBlobs :=
  let blobs := memory.blobs.pushBack blob
  { blobs := blobs
    retainedBytes := memory.retainedBytes + blob.encodedBytes
    encodedBytes := memory.encodedBytes + blob.encodedBytes
    growths :=
      if blobs.capacity ≠ memory.blobs.capacity then counterSaturatingAdd memory.growths 1
      else memory.growths }

/-- `Rollback` to a mark taken before. -/
def MemoryBlobs.rollback (memory mark : MemoryBlobs) : MemoryBlobs :=
  { memory with
    blobs := memory.blobs.replace (memory.blobs.items.take mark.blobs.items.length)
    retainedBytes := mark.retainedBytes
    encodedBytes := mark.encodedBytes }

/-- `payload::Backend`, of which the memory is in use. -/
structure Backend where
  memory : MemoryBlobs := {}
  index : PayloadIndex := {}
  writable : Bool := true

namespace Backend

variable {ε : Type}

def blobs (backend : Backend) : List Blob := backend.memory.blobs.items

/-- The constructor; none when the index throws. -/
def make (capacity : Nat) : Option Backend :=
  match PayloadIndex.make capacity with
  | none => none
  | some index => some { memory := { blobs := Vec.empty.reserve capacity }, index := index }

/-- `Find`. -/
def find (backend : Backend) (bytes : List UInt8) (payloadHash : UInt64) :
    Checked ε (Option UInt32) :=
  backend.index.find payloadHash fun blobIndex =>
    match backend.blobs[blobIndex.toNat]? with
    | none => false
    | some blob => blobMatches blob bytes payloadHash

/-- `CanAppend`; the memory takes every blob. -/
def canAppend (backend : Backend) (blobs : List Blob) : Bool :=
  backend.writable && decide (¬ blobs.length > backend.index.capacity - backend.index.size)

/-- One turn of the loop that puts the blobs from `first` on into the index, and of `rebuild`. -/
def indexBlob (blobs : List Blob) (blobIndex : Nat) (index : PayloadIndex) :
    Checked PayloadIndex PayloadIndex := do
  let blob ← fetch blobs blobIndex
  let inserted ← index.insert blob.payloadHash (UInt32.ofNat blobIndex)
  require (inserted.1 = true) inserted.2
  pure inserted.2

/-- `rebuild`, and whether it got through. -/
def rebuild (backend : Backend) : Checked ε (Bool × Backend) :=
  match forRange backend.blobs.length (indexBlob backend.blobs) backend.index.clear with
  | Except.ok index => pure (true, { backend with index := index })
  | Except.error (Stop.reject index) => pure (false, { backend with index := index })
  | Except.error Stop.outOfBounds => Except.error Stop.outOfBounds

/-- `Append`: the first blob and the number of them, none when the code is not `Ok`. -/
def append (backend : Backend) (blobs : List Blob) :
    Checked ε (Option (UInt32 × UInt32) × Backend) :=
  if backend.canAppend blobs = false then pure (none, backend)
  else
    let first := backend.blobs.length
    let memory := blobs.foldl MemoryBlobs.append backend.memory
    match forRange blobs.length (fun offset => indexBlob memory.blobs.items (first + offset))
        backend.index with
    | Except.ok index =>
        pure (some (UInt32.ofNat first, UInt32.ofNat blobs.length),
          { backend with memory := memory, index := index })
    | Except.error (Stop.reject index) => do
        let back := { backend with memory := memory.rollback backend.memory, index := index }
        let rebuilt ← back.rebuild
        pure (none, { rebuilt.2 with writable := rebuilt.2.writable && rebuilt.1 })
    | Except.error Stop.outOfBounds => Except.error Stop.outOfBounds

/-- `Clear`. -/
def clear (backend : Backend) : Backend :=
  { backend with
    memory := { blobs := backend.memory.blobs.clear }
    index := backend.index.clear }

/-- `LoadArchive`. -/
def loadArchive (backend : Backend) (blobs : List Blob) : Checked ε Backend :=
  let memory := blobs.foldl MemoryBlobs.append backend.clear.memory
  match forRange memory.blobs.items.length (indexBlob memory.blobs.items) backend.clear.index with
  | Except.ok index => pure { backend.clear with memory := memory, index := index }
  | Except.error (Stop.reject index) =>
      pure { backend.clear with memory := memory, index := index }.clear
  | Except.error Stop.outOfBounds => Except.error Stop.outOfBounds

end Backend

/-! ### What a caller hands over -/

/-- A piece of memory: where it lies and what it holds; at the null pointer there is nothing. -/
structure Span where
  data : UInt64
  bytes : List UInt8
  addressable : bytes.length < 2 ^ 64
  null : data = 0 → bytes = []

/-- Two pieces of one memory. -/
def OneMemory (left right : Span) : Prop :=
  left.data = right.data → left.bytes.length = right.bytes.length → left.bytes = right.bytes

/-- `Capture`: bytes together with their hash, as `read` and `verify` make it.  A capture that
is not valid shows nothing. -/
structure Capture (H : ByteHasher) where
  valid : Bool
  span : Span
  hash : UInt64
  genuine : valid = true → hash = H.hashBytes span.bytes

/-- `Capture::read`. -/
def Capture.read (H : ByteHasher) (span : Span) : Capture H :=
  { valid := true, span := span, hash := H.hashBytes span.bytes, genuine := fun _ => rfl }

/-- `InputSourceRange`. -/
structure InputSourceRange where
  eventOffset : UInt64 := 0
  eventCount : UInt64 := 0
  payloadOffset : UInt64 := 0
  payloadCount : UInt64 := 0
  hash : UInt64 := 0
  deriving DecidableEq, Repr

/-! ### The store -/

/-- `payload::Piece`. -/
structure Piece where
  blobIndex : UInt32
  deriving DecidableEq, Repr

/-- `payload::StoredRecord`. -/
structure StoredRecord where
  metadata : PayloadRecord
  recordHash : UInt64 := 0
  pieceOffset : UInt32 := 0
  pieceCount : UInt32 := 0
  deriving DecidableEq, Repr

/-- `replay::Storage` in the mode `Memory`, as far as that mode reads it. -/
structure MemoryStorage where
  maxBytes : UInt64 := 1024 * 1024 * 1024
  deriving DecidableEq, Repr

/-- `payload::Store`.  The ring of raw captures is as it was made: nothing here captures. -/
structure Store where
  storage : MemoryStorage
  limits : Limits
  records : Vec StoredRecord
  hostRecordIndices : Vec Nat
  inputRecordIndices : Vec Nat
  pieces : Vec Piece
  pieceScratch : Vec Piece
  stagedBlobs : Vec Blob
  stagedIndex : PayloadIndex
  backend : Backend
  loadedDiagnostic : DiagnosticArchive := {}
  publication : List UInt8 := []
  publicationChunks : Nat := 0
  logicalBytes : UInt64 := 0
  growths : UInt64 := 0
  loadedPayloadHash : UInt64 := 0
  loadedArchive : Bool := false
  loadedDiagnosticActive : Bool := false

namespace Store

variable (H : ByteHasher) {ε : Type}

/-- The constructor; none when it throws. -/
def make (storage : MemoryStorage) (limits : Limits) : Option Store :=
  match PayloadIndex.make limits.staged, Backend.make limits.blobs with
  | some stagedIndex, some backend =>
      if limits.bytes > storage.maxBytes ∨ fitsU32 (limits.hosts + limits.inputs) = false ∨
          fitsU32 limits.pieces = false ∨ fitsU32 limits.blobs = false ∨
          fitsU32 limits.staged = false ∨ limits.staged > limits.pieces ∨
          limits.blobs > limits.pieces then none
      else
        some
          { storage := storage
            limits := limits
            records := Vec.empty.reserve (limits.hosts + limits.inputs)
            hostRecordIndices := Vec.empty.reserve limits.hosts
            inputRecordIndices := Vec.empty.reserve limits.inputs
            pieces := Vec.empty.reserve limits.pieces
            pieceScratch := Vec.empty.reserve limits.staged
            stagedBlobs := Vec.empty.reserve limits.staged
            stagedIndex := stagedIndex
            backend := backend }
  | _, _ => none

/-- `pieces`: the pieces of a record. -/
def recordPieces (store : Store) (record : StoredRecord) : List Piece :=
  let offset := record.pieceOffset.toNat
  let count := record.pieceCount.toNat
  if offset > store.pieces.items.length ∨ count > store.pieces.items.length - offset then []
  else (store.pieces.items.drop offset).take count

def roleIndices (store : Store) : Role → Vec Nat
  | .host => store.hostRecordIndices
  | .input => store.inputRecordIndices

def roleLimit (limits : Limits) : Role → Nat
  | .host => limits.hosts
  | .input => limits.inputs

/-! #### Hashes -/

/-- One turn of the loop of `ComputeRecordHash`, with the bytes and the hash so far. -/
def hashPiece (blobs : List Blob) (completedBytes : UInt64) (piece : Piece)
    (now : UInt64 × UInt64) : Checked Unit (UInt64 × UInt64) := do
  require (piece.blobIndex.toNat < blobs.length) ()
  let blob ← fetch blobs piece.blobIndex.toNat
  require (¬ now.1 > completedBytes ∧ ¬ blob.uncompressedBytes > completedBytes - now.1) ()
  pure (now.1 + blob.uncompressedBytes,
    appendRecordHash now.2 blob.payloadHash blob.uncompressedBytes)

/-- `ComputeRecordHash`; leaving stands for `nullopt`. -/
def computeRecordHash (record : StoredRecord) (pieces : List Piece) (blobs : List Blob) :
    Checked Unit UInt64 := do
  let completed := record.metadata.completedBytes
  let final ← forEach pieces (hashPiece blobs completed)
    (0, beginRecordHash record.metadata completed (UInt64.ofNat pieces.length))
  require (final.1 = completed) ()
  pure final.2

/-- One turn of the loop of `ComputeRecordHashes`; it leaves with what was done before. -/
def rehashRecord (store : Store) (index : Nat) (records : Vec StoredRecord) :
    Checked (Vec StoredRecord) (Vec StoredRecord) := do
  let record ← fetch records.items index
  match computeRecordHash record (store.recordPieces record) store.backend.blobs with
  | Except.ok hash => records.assign index { record with recordHash := hash }
  | Except.error (Stop.reject _) => leave records
  | Except.error Stop.outOfBounds => Except.error Stop.outOfBounds

/-- `ComputeRecordHashes`, and whether it got through. -/
def computeRecordHashes (store : Store) : Checked ε (Bool × Store) :=
  match forRange store.records.items.length store.rehashRecord store.records with
  | Except.ok records => pure (true, { store with records := records })
  | Except.error (Stop.reject records) => pure (false, { store with records := records })
  | Except.error Stop.outOfBounds => Except.error Stop.outOfBounds

/-- `payload_hash`. -/
def payloadHash (store : Store) : UInt64 :=
  if store.records.items = [] then 0
  else if store.loadedArchive then store.loadedPayloadHash
  else archiveHash (store.records.items.map StoredRecord.recordHash)

/-! #### Appending -/

/-- What the loop over the chunks of a payload changes. -/
structure Staging where
  pieceScratch : Vec Piece
  stagedBlobs : Vec Blob
  stagedIndex : PayloadIndex
  recordHash : UInt64
  encodedBytes : UInt64

/-- The store with its scratch vectors as a loop has left them. -/
def withScratch (store : Store) (now : Staging) : Store :=
  { store with
    pieceScratch := now.pieceScratch
    stagedBlobs := now.stagedBlobs
    stagedIndex := now.stagedIndex }

/-- `make_blob`: bytes that were handed over are kept as they are. -/
def makeBlob (adopted : List UInt8) (offset : Nat) (chunk : List UInt8) (chunkHash : UInt64) :
    Blob :=
  if adopted = [] then encodeBlob chunk chunkHash
  else
    { payloadHash := chunkHash
      uncompressedBytes := UInt64.ofNat chunk.length
      encodedBytes := UInt64.ofNat chunk.length
      codec := .raw
      encoded := (adopted.drop offset).take chunk.length }

/-- One turn of the loop over the chunks; it leaves with what `AppendRecord` returns. -/
def stageChunk (store : Store) (payloadHash : UInt64) (bytes adopted : List UInt8)
    (turn : Nat) (now : Staging) : Checked (Bool × Store) Staging := do
  let offset := turn * kChunkBytes
  let base := store.backend.blobs.length
  let chunk := (bytes.drop offset).take (min kChunkBytes (bytes.length - offset))
  let chunkHash := if chunkCount bytes.length = 1 then payloadHash else H.hashBytes chunk
  let now :=
    { now with
      recordHash := appendRecordHash now.recordHash chunkHash (UInt64.ofNat chunk.length) }
  match ← store.backend.find chunk chunkHash with
  | some existing => pure { now with pieceScratch := now.pieceScratch.pushBack ⟨existing⟩ }
  | none =>
      match ← now.stagedIndex.find chunkHash (fun index =>
          match now.stagedBlobs.items[index.toNat]? with
          | none => false
          | some blob => blobMatches blob chunk chunkHash) with
      | some staged =>
          pure { now with
            pieceScratch := now.pieceScratch.pushBack ⟨UInt32.ofNat (base + staged.toNat)⟩ }
      | none => do
          require (¬ now.stagedBlobs.items.length ≥ now.stagedBlobs.capacity ∧
            ¬ base + now.stagedBlobs.items.length > 0xffffffff) (false, store.withScratch now)
          let blob := makeBlob adopted offset chunk chunkHash
          require (checkedAdd now.encodedBytes blob.encodedBytes = true)
            (false, store.withScratch now)
          let staged := UInt32.ofNat now.stagedBlobs.items.length
          let now :=
            { now with
              encodedBytes := now.encodedBytes + blob.encodedBytes
              pieceScratch := now.pieceScratch.pushBack
                ⟨UInt32.ofNat (base + now.stagedBlobs.items.length)⟩
              stagedBlobs := now.stagedBlobs.pushBack blob }
          let inserted ← now.stagedIndex.insert chunkHash staged
          let now := { now with stagedIndex := inserted.2 }
          require (inserted.1 = true) (false, store.withScratch now)
          pure now

/-- How often a vector grew. -/
def growth {α : Type} (before after : Vec α) : UInt64 :=
  if after.capacity ≠ before.capacity then 1 else 0

/-- `Commit`, with the pieces of the record and the count of growths. -/
def commit (store : Store) (record : StoredRecord) (pieces : List Piece) (added : UInt64) :
    Store :=
  let index := store.records.items.length
  let next :=
    { store with
      pieces := store.pieces.replace (store.pieces.items ++ pieces)
      records := store.records.pushBack record
      logicalBytes := store.logicalBytes + added }
  let next :=
    match record.metadata.role with
    | .input => { next with inputRecordIndices := next.inputRecordIndices.pushBack index }
    | .host => { next with hostRecordIndices := next.hostRecordIndices.pushBack index }
  { next with
    growths := counterSaturatingAdd next.growths
      (growth store.records next.records + growth store.hostRecordIndices next.hostRecordIndices +
        growth store.inputRecordIndices next.inputRecordIndices +
        growth store.pieces next.pieces) }

/-- The second half of `AppendRecord`, from the budget on. -/
def storeChunks (store : Store) (record : StoredRecord) (payload : Capture H) (adopted : Span) :
    Checked (Bool × Store) (Bool × Store) := do
  let bytes := payload.span.bytes
  let added := UInt64.ofNat bytes.length
  require (fitsBudget store.logicalBytes added store.limits.bytes = true) (false, store)
  require (¬ chunkCount bytes.length > store.pieceScratch.capacity ∧
    ¬ chunkCount bytes.length > store.pieces.capacity - store.pieces.items.length ∧
    ¬ store.backend.blobs.length > 0xffffffff) (false, store)
  let staged ← forRange (chunkCount bytes.length)
    (stageChunk H store record.metadata.payloadHash bytes adopted.bytes)
    { pieceScratch := store.pieceScratch.clear
      stagedBlobs := store.stagedBlobs.clear
      stagedIndex := store.stagedIndex.clear
      recordHash := beginRecordHash record.metadata added
        (UInt64.ofNat (chunkCount bytes.length))
      encodedBytes := 0 }
  let base := store.backend.blobs.length
  let store := store.withScratch staged
  require (fitsBudget store.backend.memory.encodedBytes staged.encodedBytes
    store.limits.bytes = true) (false, store)
  require (store.backend.canAppend store.stagedBlobs.items = true) (false, store)
  -- the blobs are moved out of the scratch vector; nothing reads it before it is cleared
  let appended ← store.backend.append store.stagedBlobs.items
  let store := { store with backend := appended.2 }
  match appended.1 with
  | none => leave (false, store)
  | some (first, count) => do
      require (first.toNat = base ∧ count.toNat = store.stagedBlobs.items.length) (false, store)
      let store :=
        if count ≠ 0 then { store with publication := [], publicationChunks := 0 } else store
      pure (true, store.commit
        { record with
          recordHash := staged.recordHash
          pieceOffset := UInt32.ofNat store.pieces.items.length
          pieceCount := UInt32.ofNat staged.pieceScratch.items.length }
        staged.pieceScratch.items added)

/-- `AppendRecord`, up to the value it returns. -/
def appendRecordSteps (store : Store) (record : StoredRecord) (payload : Capture H)
    (adopted : Span) : Checked (Bool × Store) (Bool × Store) := do
  require (payload.valid = true) (false, store)
  require (record.metadata.completedBytes.toNat = payload.span.bytes.length ∧
    record.metadata.payloadHash = payload.hash ∧
    (adopted.bytes = [] ∨ adopted.data = payload.span.data ∧
      adopted.bytes.length = payload.span.bytes.length)) (false, store)
  let rehashed ← if store.loadedArchive then store.computeRecordHashes else pure (true, store)
  let store := rehashed.2
  require (rehashed.1 = true) (false, store)
  let role := record.metadata.role
  require (¬ (store.roleIndices role).items.length ≥ roleLimit store.limits role) (false, store)
  storeChunks H { store with loadedArchive := false, loadedPayloadHash := 0 } record payload adopted

/-- `AppendRecord`. -/
def appendRecord (store : Store) (record : StoredRecord) (payload : Capture H) (adopted : Span) :
    Checked ε (Bool × Store) := call (store.appendRecordSteps H record payload adopted)

/-- No bytes. -/
def noSpan : Span := { data := 0, bytes := [], addressable := by decide, null := fun _ => rfl }

/-- `Append` of a payload that stays with the caller. -/
def append (store : Store) (eventSequence : UInt64) (kind : EventKind) (payload : Capture H) :
    Checked ε (Bool × Store) :=
  if payload.valid = false then pure (false, store)
  else
    store.appendRecord H
      { metadata :=
          { role := .host
            eventSequence := eventSequence
            kind := kind
            completedBytes := UInt64.ofNat payload.span.bytes.length
            payloadHash := payload.hash } } payload noSpan

/-- `Append` of a payload that is handed over. -/
def appendAdopted (store : Store) (eventSequence : UInt64) (kind : EventKind) (bytes : Span)
    (payload : Capture H) : Checked ε (Bool × Store) :=
  if payload.valid = false then pure (false, store)
  else
    store.appendRecord H
      { metadata :=
          { role := .host
            eventSequence := eventSequence
            kind := kind
            completedBytes := UInt64.ofNat bytes.bytes.length
            payloadHash := payload.hash } } payload bytes

/-- `AppendInput`. -/
def appendInput (store : Store) (source schema sequence : UInt64) (sourceRange : InputSourceRange)
    (bytes : Span) (payload : Capture H) : Checked ε (Bool × Store) :=
  if source = 0 ∨ schema = 0 ∨ payload.valid = false then pure (false, store)
  else
    store.appendRecord H
      { metadata :=
          { role := .input
            inputSource := source
            inputSchema := schema
            inputSequence := sequence
            sourceEventOffset := sourceRange.eventOffset
            sourceEventCount := sourceRange.eventCount
            sourcePayloadOffset := sourceRange.payloadOffset
            sourcePayloadCount := sourceRange.payloadCount
            sourceHash := sourceRange.hash
            completedBytes := UInt64.ofNat bytes.bytes.length
            payloadHash := payload.hash } } payload bytes

/-! #### Reading -/

/-- `WholeChunk`, for a stored record. -/
def wholeChunkStored (record : StoredRecord) (pieces : List Piece) (blobs : List Blob) : Bool :=
  match pieces with
  | [piece] =>
      match blobs[piece.blobIndex.toNat]? with
      | none => false
      | some blob =>
          blob.uncompressedBytes == record.metadata.completedBytes &&
            blob.payloadHash == record.metadata.payloadHash
  | _ => false

/-- One turn of the loop of `Read`: what was read so far, and its hash. -/
def readPiece (blobs : List Blob) (outputSize : Nat) (piece : Piece)
    (now : List UInt8 × Option H.State) : Checked ReplayCode (List UInt8 × Option H.State) := do
  require (piece.blobIndex.toNat < blobs.length) .hostPayloadMissing
  let blob ← fetch blobs piece.blobIndex.toNat
  require (¬ now.1.length > outputSize ∧
    ¬ blob.uncompressedBytes.toNat > outputSize - now.1.length) .hostPayloadHashInvalid
  match decodeInto H blob.payloadHash blob.uncompressedBytes blob.codec blob.encoded
      blob.uncompressedBytes.toNat now.2 with
  | none => leave .hostPayloadHashInvalid
  | some (bytes, recordHash) => pure (now.1 ++ bytes, recordHash)

/-- `Read`. -/
def read (store : Store) (recordIndex outputSize : Nat) : Checked ReplayCode (List UInt8) := do
  require (recordIndex < store.records.items.length) .hostPayloadMissing
  let record ← fetch store.records.items recordIndex
  require (record.metadata.completedBytes.toNat = outputSize) .hostPayloadHashInvalid
  let pieces := store.recordPieces record
  let recordHash :=
    if wholeChunkStored record pieces store.backend.blobs = false then some H.start else none
  let final ← forEach pieces (readPiece H store.backend.blobs outputSize) ([], recordHash)
  require (final.1.length = outputSize ∧
    ∀ state ∈ final.2, H.finish state = record.metadata.payloadHash) .hostPayloadHashInvalid
  pure final.1

/-- `Resolve`. -/
def resolve (store : Store) (recordIndex : Nat) : Checked ReplayCode (List UInt8) := do
  require (recordIndex < store.records.items.length) .hostPayloadMissing
  let record ← fetch store.records.items recordIndex
  store.read H recordIndex record.metadata.completedBytes.toNat

/-! #### The archive of a store -/

/-- The report of `Backend::Report`. -/
def report (backend : Backend) : StorageReport where
  mode := .memory
  encodedBytes := backend.memory.encodedBytes
  cachedBytes := backend.memory.retainedBytes
  growths := backend.memory.growths
  chunkCount := UInt64.ofNat backend.blobs.length

/-- `Compact`: how many bytes are retained and how many were copied.  The bytes of the chunks do
not change. -/
def compact (adjacent : List ArchiveChunk → Bool) (chunks : List ArchiveChunk) :
    UInt64 × UInt64 :=
  let total := UInt64.ofNat (chunks.flatMap ArchiveChunk.encoded).length
  if chunks = [] ∨ total = 0 then (0, 0) else (total, if adjacent chunks then 0 else total)

/-- The chunks of an archive; `published` is what an earlier archive has laid out, if it still
holds. -/
def archiveChunks (published : Option (List UInt8)) : List Blob → Nat → Nat → List ArchiveChunk
  | [], _, _ => []
  | blob :: blobs, index, offset =>
      { chunkId := UInt64.ofNat index
        codec := blob.codec
        uncompressedBytes := blob.uncompressedBytes
        encodedBytes := blob.encodedBytes
        uncompressedHash := blob.payloadHash
        encoded :=
          match published with
          | none => blob.encoded
          | some bytes => (bytes.drop offset).take blob.encoded.length } ::
        archiveChunks published blobs (index + 1) (offset + blob.encoded.length)

/-- The pieces of an archived record; a piece of no blob is left out. -/
def archivePieces (blobs : List Blob) (pieces : List Piece) : List ArchivePiece :=
  pieces.filterMap fun piece =>
    match blobs[piece.blobIndex.toNat]? with
    | none => none
    | some blob =>
        some { chunkId := piece.blobIndex.toUInt64
               offset := 0
               size := blob.uncompressedBytes.toUInt32 }

/-- `Archive`, and the store with what it has published. -/
def archive (adjacent : List ArchiveChunk → Bool) (store : Store) : PayloadArchive × Store :=
  let blobs := store.backend.blobs
  let cached := store.publicationChunks = blobs.length ∧
    store.publication.length = store.backend.memory.encodedBytes.toNat
  let chunks := archiveChunks (if cached then some store.publication else none) blobs 0 0
  let published := compact adjacent chunks
  let archive : PayloadArchive :=
    { records := store.records.items.map fun record =>
        { metadata := record.metadata
          pieces := archivePieces blobs (store.recordPieces record) }
      chunks := chunks
      payloadHash := store.payloadHash
      storage :=
        { report store.backend with
          logicalBytes := store.logicalBytes
          growths := counterSaturatingAdd (report store.backend).growths store.growths
          retainedBytes := published.1
          copiedBytes := published.2 }
      diagnostic := if store.loadedDiagnosticActive then store.loadedDiagnostic else {} }
  (archive,
    if chunks ≠ [] ∧ published.1 ≠ 0 then
      { store with
        publication := chunks.flatMap ArchiveChunk.encoded
        publicationChunks := chunks.length }
    else store)

/-! #### Loading an archive -/

/-- One turn of the loop of `LoadChunks`. -/
def loadChunk (chunk : ArchiveChunk) (now : List Blob × UInt64) :
    Checked ReplayCode (List Blob × UInt64) := do
  require (chunk.chunkId.toNat = now.1.length) .hostBadIndex
  require (¬ (chunk.encodedBytes.toNat ≠ chunk.encoded.length ∧ chunk.spilled = false))
    .hostBadValue
  require (chunk.spilled = false) .hostBadValue
  require (checkedAdd now.2 chunk.encodedBytes = true) .hostPayloadCapacityExceeded
  pure (now.1 ++
    [{ payloadHash := chunk.uncompressedHash
       uncompressedBytes := chunk.uncompressedBytes
       encodedBytes := chunk.encodedBytes
       codec := chunk.codec
       encoded := chunk.encoded }], now.2 + chunk.encodedBytes)

/-- `LoadChunks`. -/
def loadChunks (archive : PayloadArchive) : Checked ReplayCode (List Blob × UInt64) :=
  forEach archive.chunks loadChunk ([], 0)

/-- The fields that `LoadRecords` allows; the kind of a host record is not looked at. -/
def loadFieldsValid (metadata : PayloadRecord) : Bool :=
  match metadata.role with
  | .host =>
      metadata.inputSource == 0 && metadata.inputSchema == 0 &&
        metadata.inputSequence == 0 && metadata.sourceEventOffset == 0 &&
        metadata.sourceEventCount == 0 && metadata.sourcePayloadOffset == 0 &&
        metadata.sourcePayloadCount == 0 && metadata.sourceHash == 0
  | .input =>
      metadata.eventSequence == 0 && metadata.kind == .none && metadata.inputSource != 0 &&
        metadata.inputSchema != 0 && metadata.sourceHash != 0 &&
        checkedAdd metadata.sourceEventOffset metadata.sourceEventCount &&
        checkedAdd metadata.sourcePayloadOffset metadata.sourcePayloadCount

/-- What `LoadRecords` has read so far. -/
structure RecordLoad where
  records : List StoredRecord := []
  pieces : List Piece := []
  logicalBytes : UInt64 := 0
  deriving DecidableEq, Repr

/-- One turn of the loop over the pieces of a record. -/
def loadPiece (chunks : List ArchiveChunk) (piece : ArchivePiece) (now : List Piece × UInt64) :
    Checked ReplayCode (List Piece × UInt64) := do
  require (piece.chunkId.toNat < chunks.length ∧ piece.offset = 0) .hostBadIndex
  let chunk ← fetch chunks piece.chunkId.toNat
  require (piece.size.toUInt64 = chunk.uncompressedBytes) .hostBadIndex
  require (checkedAdd now.2 piece.size.toUInt64 = true) .hostPayloadCapacityExceeded
  pure (now.1 ++ [⟨piece.chunkId.toUInt32⟩], now.2 + piece.size.toUInt64)

/-- One turn of the loop over the records. -/
def loadRecord (chunks : List ArchiveChunk) (record : ArchiveRecord) (now : RecordLoad) :
    Checked ReplayCode RecordLoad := do
  require (loadFieldsValid record.metadata = true) .hostBadValue
  let final ← forEach record.pieces (loadPiece chunks) (now.pieces, 0)
  require (final.2 = record.metadata.completedBytes ∧
    checkedAdd now.logicalBytes record.metadata.completedBytes = true)
    .hostPayloadCapacityExceeded
  pure
    { records := now.records ++
        [{ metadata := record.metadata
           pieceOffset := UInt32.ofNat now.pieces.length
           pieceCount := UInt32.ofNat record.pieces.length }]
      pieces := final.1
      logicalBytes := now.logicalBytes + record.metadata.completedBytes }

/-- One turn of the loop that counts the pieces. -/
def countPieces (record : ArchiveRecord) (count : Nat) : Checked ReplayCode Nat := do
  require (¬ record.pieces.length > kSizeMax - count) .hostPayloadCapacityExceeded
  pure (count + record.pieces.length)

/-- `LoadRecords`. -/
def loadRecords (archive : PayloadArchive) : Checked ReplayCode RecordLoad := do
  let pieceCount ← forEach archive.records countPieces 0
  require (¬ pieceCount > 0xffffffff) .hostPayloadCapacityExceeded
  forEach archive.records (loadRecord archive.chunks) {}

/-- `Clear`. -/
def clear (store : Store) : Store :=
  { store with
    records := store.records.clear
    hostRecordIndices := store.hostRecordIndices.clear
    inputRecordIndices := store.inputRecordIndices.clear
    pieces := store.pieces.clear
    pieceScratch := store.pieceScratch.clear
    stagedBlobs := store.stagedBlobs.clear
    stagedIndex := store.stagedIndex.clear
    backend := store.backend.clear
    loadedDiagnostic := {}
    publication := []
    publicationChunks := 0
    logicalBytes := 0
    growths := 0
    loadedPayloadHash := 0
    loadedArchive := false
    loadedDiagnosticActive := false }

/-- The indices of the records of a role. -/
def indicesOf (role : Role) (records : List StoredRecord) : List Nat :=
  (List.range records.length).filter fun index =>
    match records[index]? with
    | none => false
    | some record => record.metadata.role == role

/-- `RebuildRoleIndices`. -/
def rebuildRoleIndices (store : Store) : Store :=
  { store with
    hostRecordIndices := store.hostRecordIndices.replace (indicesOf .host store.records.items)
    inputRecordIndices := store.inputRecordIndices.replace (indicesOf .input store.records.items) }

/-- `LoadArchive`, and whether it succeeded. -/
def loadArchive (store : Store) (archive : PayloadArchive) : Checked ε (Bool × Store) :=
  let store := store.clear
  if validArchive H archive = false then pure (false, store)
  else
    let store :=
      { store with loadedDiagnostic := archive.diagnostic, loadedDiagnosticActive := true }
    if archive.records = [] ∧ archive.chunks = [] ∧ archive.payloadHash = 0 then
      pure (true, store)
    else
      match loadChunks archive, loadRecords archive with
      | Except.ok chunks, Except.ok records => do
          let backend ← store.backend.loadArchive chunks.1
          let store :=
            rebuildRoleIndices
              { store with
                backend := backend
                records := store.records.replace records.records
                pieces := store.pieces.replace records.pieces
                logicalBytes := records.logicalBytes }
          let rehashed ← store.computeRecordHashes
          let store := rehashed.2
          pure (rehashed.1 && store.payloadHash == archive.payloadHash,
            { store with loadedPayloadHash := archive.payloadHash, loadedArchive := true })
      | Except.error Stop.outOfBounds, _ => Except.error Stop.outOfBounds
      | _, Except.error Stop.outOfBounds => Except.error Stop.outOfBounds
      | _, _ => pure (false, store)

/-- `Build`: the new store; it leaves with the code of a result that is not in order. -/
def build (archive : PayloadArchive) (storage : MemoryStorage) : Checked ReplayCode Store :=
  match Limits.archive archive with
  | Except.error Stop.outOfBounds => Except.error Stop.outOfBounds
  | Except.error (Stop.reject _) => leave .hostPayloadCapacityExceeded
  | Except.ok limits =>
      if limits.bytes > storage.maxBytes then leave .hostPayloadCapacityExceeded
      else
        match make storage limits with
        -- the constructor throws, which no caller expects
        | none => leave .hostPayloadCapacityExceeded
        | some store => do
            let loaded ← store.loadArchive H archive
            require (loaded.1 = true) .hostPayloadHashInvalid
            pure loaded.2

end Store

end RunD
