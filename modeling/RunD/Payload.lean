/-
The data of recorded payloads: the record of a payload, the chunks its bytes
are kept in, and the archive a store publishes.

A chunk is kept as it is or by its run-length code.  `Blob.Holds` says which
bytes a kept chunk stands for, and every way to look at a chunk (comparing it,
decoding it, hashing what it decodes to) sees these bytes.
-/
import RunD.HostEvents
import RunD.Rle

namespace RunD

/-! ### Records -/

def kChunkBytes : Nat := 64 * 1024

/-- `payload::Role`. -/
inductive Role where
  | host
  | input
  deriving DecidableEq, Repr

def Role.value : Role → UInt8
  | .host => 0
  | .input => 1

/-- `payload::Record`. -/
structure PayloadRecord where
  role : Role := .host
  eventSequence : UInt64 := 0
  kind : EventKind := ⟨0⟩
  inputSource : UInt64 := 0
  inputSchema : UInt64 := 0
  inputSequence : UInt64 := 0
  sourceEventOffset : UInt64 := 0
  sourceEventCount : UInt64 := 0
  sourcePayloadOffset : UInt64 := 0
  sourcePayloadCount : UInt64 := 0
  sourceHash : UInt64 := 0
  completedBytes : UInt64 := 0
  payloadHash : UInt64 := 0
  deriving DecidableEq, Repr

/-- The constructor of `RecordHash`. -/
def beginRecordHash (record : PayloadRecord) (materializedBytes pieceCount : UInt64) : UInt64 :=
  mixAll kFnvOffset
    ([record.role.value.toUInt64, record.eventSequence, record.kind.value.toUInt64,
        record.inputSource, record.inputSchema, record.inputSequence] ++
      (if record.role = .input then
        [record.sourceEventOffset, record.sourceEventCount, record.sourcePayloadOffset,
          record.sourcePayloadCount, record.sourceHash]
      else []) ++
      [record.completedBytes, record.payloadHash, materializedBytes, pieceCount])

/-- `RecordHash::Append`. -/
def appendRecordHash (hash chunkHash chunkBytes : UInt64) : UInt64 :=
  mixAll hash [chunkHash, chunkBytes]

/-- `ArchiveHash` over the hashes of all records. -/
def archiveHash (recordHashes : List UInt64) : UInt64 :=
  mixAll (mix kFnvOffset (UInt64.ofNat recordHashes.length)) recordHashes

/-! ### Chunks -/

/-- `payload::Codec`. -/
inductive Codec where
  | raw
  | rle
  deriving DecidableEq, Repr

/-- `payload::Blob`. -/
structure Blob where
  payloadHash : UInt64
  uncompressedBytes : UInt64
  encodedBytes : UInt64
  codec : Codec
  encoded : List UInt8
  deriving DecidableEq, Repr

/-- `Encode`: the shorter one of the bytes and their run-length code. -/
def encodeBlob (bytes : List UInt8) (payloadHash : UInt64) : Blob :=
  let rle := encodeRle bytes
  let useRle := rle.length < bytes.length
  let encoded := if useRle then rle else bytes
  { payloadHash := payloadHash
    uncompressedBytes := UInt64.ofNat bytes.length
    encodedBytes := UInt64.ofNat encoded.length
    codec := if useRle then .rle else .raw
    encoded := encoded }

section Hashed

variable (H : ByteHasher)

/-- `hash->Append(bytes)`, when there is a hash. -/
def absorb (hash : Option H.State) (bytes : List UInt8) : Option H.State :=
  hash.map fun state => H.append state bytes

/-- What a decoding has written so far, and the two hashes it keeps. -/
structure Decoding where
  output : List UInt8
  chunkHash : Option H.State
  recordHash : Option H.State

/-- The callbacks of `DecodeRleInto`, which write a piece and hash it. -/
def Decoding.write (state : Decoding H) (piece : List UInt8) : Decoding H where
  output := state.output ++ piece
  chunkHash := absorb H state.chunkHash piece
  recordHash := absorb H state.recordHash piece

/-- `DecodeRleInto`. -/
def decodeRleInto (encoded : List UInt8) (outputSize : Nat) (chunkHash recordHash : Option H.State) :
    Option (Decoding H) :=
  walkRle outputSize
    (fun state _ length value => some (state.write H (List.replicate length value)))
    (fun state _ literal => some (state.write H literal)) encoded 0
    { output := [], chunkHash := chunkHash, recordHash := recordHash }

/-- `DecodeInto`: the output and the hash of the record; none for `HostPayloadHashInvalid`. -/
def decodeInto (payloadHash uncompressedBytes : UInt64) (codec : Codec) (encoded : List UInt8)
    (outputSize : Nat) (recordHash : Option H.State) : Option (List UInt8 × Option H.State) :=
  if uncompressedBytes.toNat ≠ outputSize then none
  else
    let decoded : Option (Decoding H) :=
      match codec with
      | .raw =>
          if encoded.length = outputSize then
            some { output := encoded
                   chunkHash := absorb H (some H.start) encoded
                   recordHash := absorb H recordHash encoded }
          else none
      | .rle => decodeRleInto H encoded outputSize (some H.start) recordHash
    match decoded with
    | none => none
    | some state =>
        if state.chunkHash.map H.finish = some payloadHash then
          some (state.output, state.recordHash)
        else none

/-- `WalkDecoded`. -/
def walkDecoded {σ : Type} (uncompressedBytes : UInt64) (codec : Codec) (encoded : List UInt8)
    (append : σ → List UInt8 → σ) (state : σ) : Option σ :=
  match codec with
  | .raw => if encoded.length ≠ uncompressedBytes.toNat then none else some (append state encoded)
  | .rle =>
      walkRle uncompressedBytes.toNat
        (fun state _ length value => some (append state (List.replicate length value)))
        (fun state _ literal => some (append state literal)) encoded 0 state

/-- `Verify`: none when it returns false, else the hash of the payload behind the chunk. -/
def verifyChunk (expectedHash uncompressedBytes : UInt64) (codec : Codec) (encoded : List UInt8)
    (payloadHash : Option H.State) : Option (Option H.State) :=
  match walkDecoded uncompressedBytes codec encoded
      (fun (state : H.State × Option H.State) bytes =>
        (H.append state.1 bytes, absorb H state.2 bytes)) (H.start, payloadHash) with
  | none => none
  | some state => if H.finish state.1 = expectedHash then some state.2 else none

/-- `AppendDecodedBytes`. -/
def appendDecodedBytes (uncompressedBytes : UInt64) (codec : Codec) (encoded : List UInt8)
    (payloadHash : H.State) : Option H.State :=
  walkDecoded uncompressedBytes codec encoded H.append payloadHash

end Hashed

/-- `RleMatches`. -/
def rleMatches (encoded expected : List UInt8) : Bool :=
  (walkRle expected.length
    (fun (_ : Unit) offset length value =>
      if ((expected.drop offset).take length).all (· == value) then some () else none)
    (fun _ offset literal =>
      if (expected.drop offset).take literal.length = literal then some () else none)
    encoded 0 ()).isSome

/-- `Matches`. -/
def blobMatches (blob : Blob) (bytes : List UInt8) (payloadHash : UInt64) : Bool :=
  if blob.uncompressedBytes.toNat ≠ bytes.length ∨ blob.payloadHash ≠ payloadHash then false
  else
    match blob.codec with
    | .raw => blob.encoded.length == bytes.length && blob.encoded == bytes
    | .rle => rleMatches blob.encoded bytes

/-! ### The archive -/

/-- `replay::StorageMode`. -/
inductive StorageMode where
  | memory
  | spill
  deriving DecidableEq, Repr

/-- `replay::StorageReport`. -/
structure StorageReport where
  mode : StorageMode := .memory
  logicalBytes : UInt64 := 0
  encodedBytes : UInt64 := 0
  retainedBytes : UInt64 := 0
  copiedBytes : UInt64 := 0
  cachedBytes : UInt64 := 0
  physicalBytes : UInt64 := 0
  allocatedBytes : UInt64 := 0
  reservedBytes : UInt64 := 0
  growths : UInt64 := 0
  chunkCount : UInt64 := 0
  segmentCount : UInt64 := 0
  cacheHits : UInt64 := 0
  cacheMisses : UInt64 := 0
  cacheEvictions : UInt64 := 0
  deriving DecidableEq, Repr

structure ArchivePiece where
  chunkId : UInt64 := 0
  offset : UInt32 := 0
  size : UInt32 := 0
  deriving DecidableEq, Repr

structure ArchiveChunk where
  chunkId : UInt64 := 0
  codec : Codec := .raw
  uncompressedBytes : UInt64 := 0
  encodedBytes : UInt64 := 0
  uncompressedHash : UInt64 := 0
  encoded : List UInt8 := []
  spilled : Bool := false
  segmentIndex : UInt32 := 0
  segmentOffset : UInt64 := 0
  segmentRecordBytes : UInt64 := 0
  deriving DecidableEq, Repr

structure ArchiveRecord where
  metadata : PayloadRecord := {}
  pieces : List ArchivePiece := []
  deriving DecidableEq, Repr

/-- `payload::DiagnosticRecord`; its role has the one value `NetworkIngress`. -/
structure DiagnosticRecord where
  eventSequence : UInt64 := 0
  kind : EventKind := ⟨0⟩
  offset : UInt64 := 0
  byteCount : UInt64 := 0
  payloadHash : UInt64 := 0
  deriving DecidableEq, Repr

structure DiagnosticReport where
  retainedBytes : UInt64 := 0
  retainedRecords : UInt64 := 0
  evictedRecords : UInt64 := 0
  droppedRecords : UInt64 := 0
  deriving DecidableEq, Repr

structure DiagnosticArchive where
  records : List DiagnosticRecord := []
  bytes : List UInt8 := []
  hash : UInt64 := 0
  report : DiagnosticReport := {}
  deriving DecidableEq, Repr

/-- `payload::Archive`; of the spill generation only whether there is one. -/
structure PayloadArchive where
  records : List ArchiveRecord := []
  chunks : List ArchiveChunk := []
  payloadHash : UInt64 := 0
  storage : StorageReport := {}
  diagnostic : DiagnosticArchive := {}
  spillGeneration : Bool := false
  deriving DecidableEq, Repr

/-! ### What a chunk stands for -/

/-- `encoded` is the code of `content`. -/
def Codec.Codes : Codec → List UInt8 → List UInt8 → Prop
  | .raw, encoded, content => encoded = content
  | .rle, encoded, content => ∃ pieces, RleCode encoded pieces ∧ pieces.flatten = content

/-- The hash, if there is one, has absorbed these bytes. -/
def Absorbing (H : ByteHasher) (hash : Option H.State) (bytes : List UInt8) : Prop :=
  ∀ state, hash = some state → H.Absorbed state bytes

section Hashed

variable {H : ByteHasher} {σ : Type}

theorem Absorbing.absorb {hash : Option H.State} {bytes : List UInt8} (h : Absorbing H hash bytes)
    (more : List UInt8) : Absorbing H (absorb H hash more) (bytes ++ more) := by
  intro state hstate
  obtain ⟨before, hbefore, rfl⟩ := Option.map_eq_some_iff.mp hstate
  exact (h before hbefore).append more

theorem absorbing_start : Absorbing H (some H.start) [] := by
  rintro _ ⟨⟩
  exact ByteHasher.absorbed_start

theorem isSome_absorb (hash : Option H.State) (bytes : List UInt8) :
    (absorb H hash bytes).isSome = hash.isSome := Option.isSome_map

/-- A loop over pieces whose steps do not fail is a fold. -/
theorem walkPieces_some (append : σ → List UInt8 → σ) (pieces : List (List UInt8))
    (written : Nat) (state : σ) :
    walkPieces (fun state _ piece => some (append state piece)) pieces written state =
      some (pieces.foldl append state) := by
  induction pieces generalizing written state with
  | nil => rfl
  | cons piece pieces ih =>
      rw [walkPieces, List.foldl_cons]
      exact ih _ _

/-- **Decoding a chunk goes through its content**, in pieces that only the code decides. -/
theorem walkDecoded_eq {codec : Codec} {encoded content : List UInt8} {uncompressedBytes : UInt64}
    (hcodes : codec.Codes encoded content) (hsize : uncompressedBytes.toNat = content.length) :
    ∃ pieces : List (List UInt8), pieces.flatten = content ∧
      ∀ (append : σ → List UInt8 → σ) (state : σ),
        walkDecoded uncompressedBytes codec encoded append state =
          some (pieces.foldl append state) := by
  cases codec with
  | raw =>
      obtain rfl : encoded = content := hcodes
      refine ⟨[encoded], by simp, ?_⟩
      intro append state
      rw [walkDecoded, if_neg (by omega)]
      rfl
  | rle =>
      obtain ⟨pieces, hcode, rfl⟩ := hcodes
      refine ⟨pieces, rfl, ?_⟩
      intro append state
      show walkRle uncompressedBytes.toNat _ _ encoded 0 state = _
      exact (walkRle_eq hcode (fun _ _ _ _ _ => rfl) state (by omega)).trans
        (walkPieces_some append pieces 0 state)

/-- A fold that absorbs pieces has absorbed them all. -/
theorem absorbing_foldl {bytes : List UInt8} {hash : Option H.State} (pieces : List (List UInt8))
    (h : Absorbing H hash bytes) :
    Absorbing H (pieces.foldl (absorb H) hash) (bytes ++ pieces.flatten) ∧
      (pieces.foldl (absorb H) hash).isSome = hash.isSome := by
  induction pieces generalizing hash bytes with
  | nil =>
      rw [List.flatten_nil, List.append_nil]
      exact ⟨h, rfl⟩
  | cons piece pieces ih =>
      have hnext := ih (h.absorb piece)
      rw [List.flatten_cons, ← List.append_assoc, List.foldl_cons]
      exact ⟨hnext.1, hnext.2.trans (isSome_absorb hash piece)⟩

/-- The fold of `Verify` is two folds side by side. -/
theorem foldl_pair (pieces : List (List UInt8)) (chunk : H.State) (payload : Option H.State) :
    pieces.foldl (fun (state : H.State × Option H.State) bytes =>
        (H.append state.1 bytes, absorb H state.2 bytes)) (chunk, payload) =
      (pieces.foldl H.append chunk, pieces.foldl (absorb H) payload) := by
  induction pieces generalizing chunk payload with
  | nil => rfl
  | cons piece pieces ih => exact ih _ _

/-- **Verifying a chunk compares the hash of its content**, and lets the hash of the payload
absorb the content. -/
theorem verifyChunk_eq {codec : Codec} {encoded content : List UInt8}
    {expectedHash uncompressedBytes : UInt64} (hcodes : codec.Codes encoded content)
    (hsize : uncompressedBytes.toNat = content.length) {hash : Option H.State}
    {bytes : List UInt8} (habsorbing : Absorbing H hash bytes) :
    ∃ hash', Absorbing H hash' (bytes ++ content) ∧ hash'.isSome = hash.isSome ∧
      verifyChunk H expectedHash uncompressedBytes codec encoded hash =
        if H.hashBytes content = expectedHash then some hash' else none := by
  obtain ⟨pieces, rfl, hwalk⟩ := walkDecoded_eq hcodes hsize
  obtain ⟨habsorbed, hsome⟩ := absorbing_foldl pieces habsorbing
  refine ⟨pieces.foldl (absorb H) hash, habsorbed, hsome, ?_⟩
  rw [verifyChunk, hwalk, foldl_pair]
  show (if H.finish (pieces.foldl H.append H.start) = expectedHash then _ else _) = _
  rw [H.finish_append]

theorem appendDecodedBytes_eq {codec : Codec} {encoded content : List UInt8}
    {uncompressedBytes : UInt64} (hcodes : codec.Codes encoded content)
    (hsize : uncompressedBytes.toNat = content.length) {state : H.State} {bytes : List UInt8}
    (habsorbed : H.Absorbed state bytes) :
    ∃ state', H.Absorbed state' (bytes ++ content) ∧
      appendDecodedBytes H uncompressedBytes codec encoded state = some state' := by
  obtain ⟨pieces, rfl, hwalk⟩ := walkDecoded_eq hcodes hsize
  obtain ⟨before, rfl, rfl⟩ := habsorbed
  refine ⟨pieces.foldl H.append (before.foldl H.append H.start), ⟨before ++ pieces, ?_, ?_⟩,
    hwalk _ _⟩
  · rw [List.foldl_append]
  · rw [List.flatten_append]

/-- The fold of `DecodeRleInto`. -/
theorem foldl_write (pieces : List (List UInt8)) (state : Decoding H) :
    pieces.foldl (Decoding.write H) state =
      { output := state.output ++ pieces.flatten
        chunkHash := pieces.foldl (absorb H) state.chunkHash
        recordHash := pieces.foldl (absorb H) state.recordHash } := by
  induction pieces generalizing state with
  | nil => simp
  | cons piece pieces ih =>
      rw [List.foldl_cons, ih, List.flatten_cons, ← List.append_assoc]
      rfl

/-- **Decoding a chunk gives its content.** -/
theorem decodeInto_eq {codec : Codec} {encoded content : List UInt8} {uncompressedBytes : UInt64}
    (hcodes : codec.Codes encoded content) (hsize : uncompressedBytes.toNat = content.length)
    {hash : Option H.State} {bytes : List UInt8} (habsorbing : Absorbing H hash bytes) :
    ∃ hash', Absorbing H hash' (bytes ++ content) ∧ hash'.isSome = hash.isSome ∧
      decodeInto H (H.hashBytes content) uncompressedBytes codec encoded content.length hash =
        some (content, hash') := by
  have hdone : ∀ (chunkHash : Option H.State), Absorbing H chunkHash content →
      chunkHash.isSome = true → chunkHash.map H.finish = some (H.hashBytes content) := by
    intro chunkHash hchunk hsome
    obtain ⟨state, rfl⟩ := Option.isSome_iff_exists.mp hsome
    rw [Option.map_some, (hchunk state rfl).finish]
  cases codec with
  | raw =>
      obtain rfl : encoded = content := hcodes
      refine ⟨absorb H hash encoded, habsorbing.absorb encoded, isSome_absorb _ _, ?_⟩
      rw [decodeInto, if_neg (by omega)]
      simp only [if_true]
      rw [hdone (absorb H (some H.start) encoded) (absorbing_start.absorb encoded) rfl, if_pos rfl]
  | rle =>
      obtain ⟨pieces, hcode, rfl⟩ := hcodes
      obtain ⟨habsorbed, hsome⟩ := absorbing_foldl pieces habsorbing
      obtain ⟨hchunk, hstarted⟩ := absorbing_foldl pieces (absorbing_start (H := H))
      refine ⟨pieces.foldl (absorb H) hash, habsorbed, hsome, ?_⟩
      have hwalk : decodeRleInto H encoded pieces.flatten.length (some H.start) hash =
          some (pieces.foldl (Decoding.write H)
            { output := [], chunkHash := some H.start, recordHash := hash }) :=
        (walkRle_eq hcode (fun _ _ _ _ _ => rfl) _ (by omega)).trans
          (walkPieces_some (Decoding.write H) pieces 0 _)
      rw [decodeInto, if_neg (by omega), hwalk, foldl_write]
      dsimp only
      rw [hdone _ hchunk hstarted, if_pos rfl, List.nil_append]

end Hashed

/-! ### Kept chunks -/

/-- The chunk is kept for these bytes, in no more room than they take. -/
structure Blob.Holds (H : ByteHasher) (blob : Blob) (content : List UInt8) : Prop where
  hash : blob.payloadHash = H.hashBytes content
  size : blob.uncompressedBytes.toNat = content.length
  encoded_size : blob.encodedBytes.toNat = blob.encoded.length
  codes : blob.codec.Codes blob.encoded content
  nonempty : 0 < content.length
  chunk : content.length ≤ kChunkBytes
  shorter : blob.encoded.length ≤ content.length

/-- A loop that compares pieces with what is expected goes through only if they are equal. -/
theorem walkPieces_compare {expected : List UInt8} {pieces : List (List UInt8)} {written : Nat}
    (h : (walkPieces (fun (_ : Unit) offset literal =>
      if (expected.drop offset).take literal.length = literal then some () else none)
      pieces written ()).isSome = true) :
    ∃ tail, expected.drop written = pieces.flatten ++ tail := by
  induction pieces generalizing written with
  | nil => exact ⟨_, rfl⟩
  | cons piece pieces ih =>
      rw [walkPieces] at h
      by_cases hpiece : (expected.drop written).take piece.length = piece
      · rw [if_pos hpiece] at h
        obtain ⟨tail, htail⟩ := ih h
        refine ⟨tail, ?_⟩
        have hsplit := List.take_append_drop piece.length (expected.drop written)
        rw [hpiece, List.drop_drop] at hsplit
        rw [List.flatten_cons, List.append_assoc, ← htail, hsplit]
      · rw [if_neg hpiece] at h
        cases h

/-- All bytes of a stretch equal one value exactly when the stretch is a repetition of it. -/
theorem all_beq_iff {stretch : List UInt8} {value : UInt8} :
    stretch.all (· == value) = true ↔ stretch = List.replicate stretch.length value := by
  rw [List.all_eq_true, List.eq_replicate_iff]
  simp

/-- **Two chunks that match are equal**, also when different chunks have equal hashes. -/
theorem Blob.Holds.eq_of_matches {H : ByteHasher} {blob : Blob} {content bytes : List UInt8}
    (h : blob.Holds H content) {payloadHash : UInt64}
    (hmatches : blobMatches blob bytes payloadHash = true) : content = bytes := by
  rw [blobMatches] at hmatches
  split at hmatches
  · cases hmatches
  · rename_i hsame
    rw [not_or, not_not, not_not, h.size] at hsame
    have hcodes := h.codes
    cases hcodec : blob.codec with
    | raw =>
        rw [hcodec] at hmatches hcodes
        have hcontent : blob.encoded = content := hcodes
        rw [Bool.and_eq_true, beq_iff_eq, beq_iff_eq] at hmatches
        exact hcontent.symm.trans hmatches.2
    | rle =>
        rw [hcodec] at hmatches hcodes
        obtain ⟨pieces, hcode, rfl⟩ := hcodes
        dsimp only at hmatches
        rw [rleMatches, walkRle_eq hcode ?_ () (by omega)] at hmatches
        · obtain ⟨tail, htail⟩ := walkPieces_compare hmatches
          rw [List.drop_zero] at htail
          have hempty : tail.length = 0 := by
            have hlen := congrArg List.length htail
            rw [List.length_append] at hlen
            omega
          rw [htail, List.length_eq_zero_iff.mp hempty, List.append_nil]
        · intro _ offset length value hroom
          have hlen : ((bytes.drop offset).take length).length = length := by
            rw [List.length_take, List.length_drop]
            omega
          have hiff := @all_beq_iff ((bytes.drop offset).take length) value
          rw [hlen] at hiff
          simp only [List.length_replicate]
          exact if_congr hiff rfl rfl

/-- What `Encode` keeps a chunk by stands for the chunk. -/
theorem holds_encodeBlob (H : ByteHasher) {bytes : List UInt8} (hpos : 0 < bytes.length)
    (hchunk : bytes.length ≤ kChunkBytes) : (encodeBlob bytes (H.hashBytes bytes)).Holds H bytes := by
  have hword : ∀ n, n ≤ bytes.length → (UInt64.ofNat n).toNat = n := by
    intro n hn
    rw [kChunkBytes] at hchunk
    rw [UInt64.toNat_ofNat']
    exact Nat.mod_eq_of_lt (by omega)
  by_cases hrle : (encodeRle bytes).length < bytes.length
  · simp only [encodeBlob, if_pos hrle]
    exact ⟨rfl, hword _ (Nat.le_refl _), hword _ (by omega), rleCode_encodeRle bytes, hpos, hchunk,
      by dsimp only; omega⟩
  · simp only [encodeBlob, if_neg hrle]
    exact ⟨rfl, hword _ (Nat.le_refl _), hword _ (Nat.le_refl _), rfl, hpos, hchunk,
      Nat.le_refl _⟩

/-- What is kept as it is stands for itself. -/
theorem holds_raw (H : ByteHasher) {bytes : List UInt8} (hpos : 0 < bytes.length)
    (hchunk : bytes.length ≤ kChunkBytes) :
    Blob.Holds H
      { payloadHash := H.hashBytes bytes
        uncompressedBytes := UInt64.ofNat bytes.length
        encodedBytes := UInt64.ofNat bytes.length
        codec := .raw
        encoded := bytes } bytes := by
  have hword : (UInt64.ofNat bytes.length).toNat = bytes.length := by
    rw [kChunkBytes] at hchunk
    rw [UInt64.toNat_ofNat']
    exact Nat.mod_eq_of_lt (by omega)
  exact ⟨rfl, hword, hword, rfl, hpos, hchunk, Nat.le_refl _⟩

end RunD
