/-
The raw capture ring of a replay: the last bytes that came in from the network,
kept for diagnosis in a window of so many bytes and so many records.

A capture hands over its bytes in slices.  They are hashed in any case; when
the ring takes the capture, the oldest records are evicted until it fits, its
bytes are written around the ring of bytes and its record is put into the ring
of records.  `archive` copies the records out in order, with their bytes one
behind the other.
-/
import RunD.Circular
import RunD.PayloadValid

namespace RunD.RawCapture

/-! ### Sources -/

/-- A span of bytes: the bytes it points to, or a size at a null pointer. -/
inductive ByteSpan where
  | bytes (content : List UInt8)
  | null (size : Nat)
  deriving DecidableEq, Repr

namespace ByteSpan

def size : ByteSpan → Nat
  | .bytes content => content.length
  | .null size => size

def isNull : ByteSpan → Bool
  | .bytes _ => false
  | .null _ => true

/-- The first bytes of a span. -/
def first : ByteSpan → Nat → List UInt8
  | .bytes content, count => content.take count
  | .null _, _ => []

end ByteSpan

/-- `RawByteSource`: the slices that the callback returns, and whether there is a callback with
its context. -/
structure RawByteSource where
  callable : Bool := true
  slices : List ByteSpan := []
  admittedBytes : UInt64 := 0
  byteCount : UInt64 := 0
  deriving DecidableEq, Repr

section Hashed

variable (H : ByteHasher) (nullByteHash : UInt64 → UInt64)

/-- The inner loop of `HashIngress`, over the slices behind the second one. -/
def hashTail (byteCount : UInt64) : List ByteSpan → Nat → H.State → UInt64
  | [], remaining, hash => if remaining = 0 then H.finish hash else nullByteHash byteCount
  | tail :: rest, remaining, hash =>
      if remaining = 0 then H.finish hash
      else
        let count := min tail.size remaining
        if count ≠ 0 ∧ tail.isNull = true then nullByteHash byteCount
        else hashTail byteCount rest (remaining - count) (H.append hash (tail.first count))

/-- The end of `HashIngress` when at most one slice had bytes. -/
def hashFirst (byteCount : UInt64) (remaining : Nat) (first : Option (List UInt8)) : UInt64 :=
  if remaining = 0 then H.hashBytes (first.getD []) else nullByteHash byteCount

/-- The outer loop of `HashIngress`, with the bytes of the first slice that has any. -/
def hashSlices (byteCount : UInt64) : List ByteSpan → Nat → Option (List UInt8) → UInt64
  | [], remaining, first => hashFirst H nullByteHash byteCount remaining first
  | slice :: rest, remaining, first =>
      let size := min slice.size remaining
      if size ≠ 0 ∧ slice.isNull = true then nullByteHash byteCount
      else if size = 0 then
        if remaining - size = 0 then hashFirst H nullByteHash byteCount (remaining - size) first
        else hashSlices byteCount rest (remaining - size) first
      else
        match first with
        | none =>
            if remaining - size = 0 then
              hashFirst H nullByteHash byteCount (remaining - size) (some (slice.first size))
            else hashSlices byteCount rest (remaining - size) (some (slice.first size))
        | some bytes =>
            hashTail H nullByteHash byteCount rest (remaining - size)
              (H.append (H.append H.start bytes) (slice.first size))

/-- `HashIngress`. -/
def hashIngress (source : RawByteSource) : UInt64 :=
  if source.byteCount = 0 then H.hashBytes []
  else if source.callable = false ∨ source.slices = [] ∨
      source.byteCount > source.admittedBytes then
    nullByteHash source.byteCount
  else hashSlices H nullByteHash source.byteCount source.slices source.byteCount.toNat none

end Hashed

/-! ### The ring -/

/-- `replay::Diagnostic`. -/
structure Diagnostic where
  windowBytes : UInt64 := 0
  windowRecords : UInt64 := 0
  deriving DecidableEq, Repr

/-- `RawCaptureRing::Record`. -/
structure RingRecord where
  eventSequence : UInt64 := 0
  kind : EventKind := ⟨0⟩
  byteOffset : Nat := 0
  byteCount : UInt64 := 0
  payloadHash : UInt64 := 0
  deriving DecidableEq, Repr

/-- `RawCaptureRing`. -/
structure RawCaptureRing where
  bytes : List UInt8 := []
  records : List RingRecord := []
  byteHead : Nat := 0
  byteSize : Nat := 0
  recordHead : Nat := 0
  recordCount : Nat := 0
  evictedRecords : UInt64 := 0
  droppedRecords : UInt64 := 0
  deriving DecidableEq, Repr

namespace RawCaptureRing

/-- The constructor. -/
def make (config : Diagnostic) : RawCaptureRing :=
  if config.windowBytes = 0 ∨ config.windowRecords = 0 then {}
  else
    { bytes := List.replicate config.windowBytes.toNat 0
      records := List.replicate config.windowRecords.toNat {} }

def enabled (ring : RawCaptureRing) : Bool := ring.bytes ≠ [] && ring.records ≠ []

/-- `EvictOldest`. -/
def evictOldest (ring : RawCaptureRing) : Option RawCaptureRing :=
  if ring.recordCount = 0 then some ring
  else do
    let record ← ring.records[ring.recordHead]?
    pure { ring with
      byteHead :=
        if ring.bytes = [] then ring.byteHead
        else wrap record.byteOffset record.byteCount.toNat ring.bytes.length
      byteSize := ring.byteSize - record.byteCount.toNat
      recordHead := wrap ring.recordHead 1 ring.records.length
      recordCount := ring.recordCount - 1
      evictedRecords := counterSaturatingAdd ring.evictedRecords 1 }

/-- What `Retain` evicts for. -/
def LacksRoom (ring : RawCaptureRing) (byteCount : UInt64) : Prop :=
  ring.recordCount = ring.records.length ∨ byteCount.toNat > ring.bytes.length - ring.byteSize

instance (ring : RawCaptureRing) (byteCount : UInt64) : Decidable (ring.LacksRoom byteCount) :=
  inferInstanceAs (Decidable (_ ∨ _))

/-- The first loop of `Retain`, which takes one record out in each turn.  Without a record left it
would go on for ever. -/
def makeRoom (byteCount : UInt64) : Nat → RawCaptureRing → Option RawCaptureRing
  | 0, ring => if ring.LacksRoom byteCount then none else some ring
  | turns + 1, ring =>
      if ring.LacksRoom byteCount then do
        let ring ← ring.evictOldest
        makeRoom byteCount turns ring
      else some ring

end RawCaptureRing

section Hashed

variable (H : ByteHasher) (nullByteHash : UInt64 → UInt64)

/-- What the loop over the slices in `Retain` works on. -/
structure Retaining where
  bytes : List UInt8
  tail : Nat
  hash : H.State

/-- The bytes of one slice: up to the end of the ring of bytes, and the others from its start. -/
def retainSlice (slice : List UInt8) (now : Retaining H) : Option (Retaining H) := do
  let first := min slice.length (now.bytes.length - now.tail)
  let bytes ← copyInto now.bytes now.tail (slice.take first)
  let written ← extract bytes now.tail first
  let hash := H.append now.hash written
  let tail := wrap now.tail slice.length now.bytes.length
  if first ≠ slice.length then do
    let second := slice.length - first
    let bytes ← copyInto bytes 0 (slice.drop first)
    let written ← extract bytes 0 second
    pure { bytes := bytes, tail := tail, hash := H.append hash written }
  else pure { bytes := bytes, tail := tail, hash := hash }

/-- The second loop of `Retain`.  The result has no bytes left to copy when there were enough of
them; there is none (`.inl`) when a slice with bytes is a null pointer. -/
def retainSlices : List ByteSpan → Nat → Retaining H →
    Option (Retaining H ⊕ (Retaining H × Nat))
  | [], remaining, now => some (.inr (now, remaining))
  | slice :: rest, remaining, now =>
      if remaining = 0 then some (.inr (now, remaining))
      else
        let size := min slice.size remaining
        if size = 0 then retainSlices rest remaining now
        else if slice.isNull = true then some (.inl now)
        else do
          let now ← retainSlice H (slice.first size) now
          retainSlices rest (remaining - size) now

namespace RawCaptureRing

/-- `Retain`. -/
def retain (ring : RawCaptureRing) (eventSequence : UInt64) (kind : EventKind)
    (source : RawByteSource) : Option (UInt64 × RawCaptureRing) := do
  let ring ← makeRoom source.byteCount ring.recordCount ring
  let offset := wrap ring.byteHead ring.byteSize ring.bytes.length
  match ← retainSlices H source.slices source.byteCount.toNat
      { bytes := ring.bytes, tail := offset, hash := H.start } with
  | .inl now => pure (nullByteHash source.byteCount, { ring with bytes := now.bytes })
  | .inr (now, remaining) =>
      if remaining ≠ 0 then pure (nullByteHash source.byteCount, { ring with bytes := now.bytes })
      else
        let payloadHash := H.finish now.hash
        let slot := wrap ring.recordHead ring.recordCount ring.records.length
        if slot < ring.records.length then
          pure (payloadHash, { ring with
            bytes := now.bytes
            records := ring.records.set slot
              { eventSequence := eventSequence
                kind := kind
                byteOffset := offset
                byteCount := source.byteCount
                payloadHash := payloadHash }
            byteSize := ring.byteSize + source.byteCount.toNat
            recordCount := ring.recordCount + 1 })
        else none

/-- What `Capture` counts as dropped. -/
def Refuses (ring : RawCaptureRing) (eventSequence : UInt64) (kind : EventKind)
    (source : RawByteSource) : Prop :=
  ingressKind kind = false ∨ eventSequence = 0 ∨ source.callable = false ∨ source.slices = [] ∨
    source.byteCount > source.admittedBytes ∨ source.byteCount.toNat > ring.bytes.length

instance (ring : RawCaptureRing) (eventSequence : UInt64) (kind : EventKind)
    (source : RawByteSource) : Decidable (ring.Refuses eventSequence kind source) :=
  inferInstanceAs (Decidable (_ ∨ _))

/-- `Capture`: the hash it returns and the ring after it. -/
def capture (ring : RawCaptureRing) (eventSequence : UInt64) (kind : EventKind)
    (source : RawByteSource) : Option (UInt64 × RawCaptureRing) :=
  if ring.enabled = false then some (hashIngress H nullByteHash source, ring)
  else if source.byteCount = 0 then some (H.hashBytes [], ring)
  else if ring.Refuses eventSequence kind source then
    some (hashIngress H nullByteHash source,
      { ring with droppedRecords := counterSaturatingAdd ring.droppedRecords 1 })
  else ring.retain H nullByteHash eventSequence kind source

end RawCaptureRing

end Hashed

/-! ### The archive -/

namespace RawCaptureRing

/-- `Copy`: the bytes it writes into an output of this size. -/
def copy (ring : RawCaptureRing) (offset count : Nat) : Option (List UInt8) :=
  if count = 0 then some []
  else do
    let first := min count (ring.bytes.length - offset)
    let front ← extract ring.bytes offset first
    if first ≠ count then do
      let back ← extract ring.bytes 0 (count - first)
      pure (front ++ back)
    else pure front

/-- What the loop of `Archive` works on. -/
structure Archiving where
  records : List DiagnosticRecord := []
  bytes : List UInt8
  outputOffset : Nat := 0
  deriving DecidableEq, Repr

/-- One turn of the loop of `Archive`. -/
def archiveRecord (ring : RawCaptureRing) (now : Archiving) (index : Nat) : Option Archiving := do
  let record ← ring.records[wrap ring.recordHead index ring.records.length]?
  let size := record.byteCount.toNat
  let content ← ring.copy record.byteOffset size
  let bytes ← copyInto now.bytes now.outputOffset content
  pure
    { records := now.records ++
        [{ eventSequence := record.eventSequence
           kind := record.kind
           offset := UInt64.ofNat now.outputOffset
           byteCount := record.byteCount
           payloadHash := record.payloadHash }]
      bytes := bytes
      outputOffset := now.outputOffset + size }

/-- `Archive`. -/
def archive (ring : RawCaptureRing) : Option DiagnosticArchive := do
  let report : DiagnosticReport :=
    { retainedBytes := UInt64.ofNat ring.byteSize
      retainedRecords := UInt64.ofNat ring.recordCount
      evictedRecords := ring.evictedRecords
      droppedRecords := ring.droppedRecords }
  if ring.recordCount = 0 then
    pure { report := report, hash := diagnosticHash { report := report } }
  else
    let final ← (List.range ring.recordCount).foldlM ring.archiveRecord
      { bytes := List.replicate ring.byteSize 0 }
    let archive : DiagnosticArchive :=
      { records := final.records, bytes := final.bytes, report := report }
    pure { archive with hash := diagnosticHash archive }

end RawCaptureRing

/-! ### Runs -/

/-- The arguments of one call of `Capture`. -/
structure CaptureCall where
  eventSequence : UInt64
  kind : EventKind
  source : RawByteSource
  deriving DecidableEq, Repr

/-- Calls of `Capture` in a row: the hashes they return and the ring after them. -/
def captureAll (H : ByteHasher) (nullByteHash : UInt64 → UInt64) :
    List CaptureCall → RawCaptureRing → Option (List UInt64 × RawCaptureRing)
  | [], ring => some ([], ring)
  | call :: calls, ring => do
      let (hash, ring) ← ring.capture H nullByteHash call.eventSequence call.kind call.source
      let (hashes, ring) ← captureAll H nullByteHash calls ring
      pure (hash :: hashes, ring)

end RunD.RawCapture
