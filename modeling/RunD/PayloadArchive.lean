/-
The archive of a store is valid.

A piece of an archive cites the whole of a chunk (`Cites`).  What the check
keeps is then known after every piece: the bytes so far, their hash, the hash
of the record, and the chunks met (`mark`).  A store keeps every blob because
some piece needs it, so in the end all chunks are met.
-/
import RunD.PayloadContent

namespace RunD

variable {ε : Type} {H : ByteHasher}

theorem absorbing_ite (p : Prop) [Decidable p] :
    Absorbing H (if p then some H.start else none) [] := by
  by_cases hp : p
  · rw [if_pos hp]
    exact absorbing_start
  · rw [if_neg hp]
    intro state hnone
    cases hnone

/-! ### Pieces of an archive -/

/-- The piece is a whole chunk that is kept for these bytes. -/
def Cites (H : ByteHasher) (chunks : List ArchiveChunk) (piece : ArchivePiece)
    (content : List UInt8) : Prop :=
  ∃ chunk, chunks[piece.chunkId.toNat]? = some chunk ∧
    chunk.codec.Codes chunk.encoded content ∧
    chunk.uncompressedBytes = UInt64.ofNat content.length ∧ content.length ≤ kChunkBytes ∧
    chunk.uncompressedHash = H.hashBytes content ∧
    piece.offset = 0 ∧ piece.size.toUInt64 = chunk.uncompressedBytes

/-- The record of an archive is the one of an entry. -/
structure Archived (H : ByteHasher) (chunks : List ArchiveChunk) (entry : Placed)
    (record : ArchiveRecord) : Prop where
  metadata : record.metadata = entry.metadata
  cites : List.Forall₂ (Cites H chunks) record.pieces entry.chunks
  pieces : record.pieces.map ArchivePiece.chunkId =
    entry.pieces.map fun piece => piece.blobIndex.toUInt64

/-- The pieces of records are those of the entries. -/
theorem chunkIds_eq {chunks : List ArchiveChunk} {entries : List Placed}
    {records : List ArchiveRecord} (h : List.Forall₂ (Archived H chunks) entries records) :
    (records.flatMap ArchiveRecord.pieces).map ArchivePiece.chunkId =
      (entries.flatMap Placed.pieces).map fun piece => piece.blobIndex.toUInt64 := by
  induction h with
  | nil => rfl
  | cons hrecord _ ih =>
      rw [List.flatMap_cons, List.flatMap_cons, List.map_append, List.map_append, hrecord.pieces, ih]

/-- The chunks that some pieces are taken from are met. -/
def mark (referenced : List Bool) (pieces : List ArchivePiece) : List Bool :=
  pieces.foldl (fun referenced piece => referenced.set piece.chunkId.toNat true) referenced

@[simp] theorem length_mark (referenced : List Bool) (pieces : List ArchivePiece) :
    (mark referenced pieces).length = referenced.length := by
  induction pieces generalizing referenced with
  | nil => rfl
  | cons piece pieces ih => exact (ih _).trans List.length_set

theorem mark_append (referenced : List Bool) (pieces more : List ArchivePiece) :
    mark referenced (pieces ++ more) = mark (mark referenced pieces) more := List.foldl_append

/-- A chunk is met once it was met before or some piece is taken from it. -/
theorem getElem?_mark (referenced : List Bool) (pieces : List ArchivePiece) (i : Nat) :
    (mark referenced pieces)[i]? =
      referenced[i]?.map (· || pieces.any fun piece => piece.chunkId.toNat == i) := by
  induction pieces generalizing referenced with
  | nil => simp [mark]
  | cons first pieces ih =>
      refine (ih _).trans ?_
      rw [List.getElem?_set, List.any_cons]
      by_cases hfirst : first.chunkId.toNat = i
      · by_cases hlt : i < referenced.length <;> simp [hfirst, hlt]
      · simp [hfirst, beq_eq_false_iff_ne.mpr hfirst]

/-- Pieces that are taken from every chunk meet all of them. -/
theorem all_mark {count : Nat} {pieces : List ArchivePiece}
    (h : ∀ i < count, ∃ piece ∈ pieces, piece.chunkId.toNat = i) :
    (mark (List.replicate count false) pieces).all id = true := by
  rw [List.all_eq_true]
  intro met hmet
  obtain ⟨i, hat⟩ := List.getElem?_of_mem hmet
  rw [getElem?_mark, List.getElem?_replicate] at hat
  split at hat
  · rename_i hlt
    obtain ⟨piece, hpiece, hchunk⟩ := h i hlt
    rw [← Option.some.inj hat]
    exact List.any_eq_true.mpr ⟨piece, hpiece, beq_iff_eq.mpr hchunk⟩
  · cases hat

/-! ### Checking the records -/

section Records

variable {chunks : List ArchiveChunk}

/-- One piece. -/
theorem checkPiece_eq {piece : ArchivePiece} {content : List UInt8}
    (h : Cites H chunks piece content) (now : PieceCheck H) {bytes : List UInt8}
    (hbytes : now.pieceBytes = UInt64.ofNat bytes.length)
    (hfits : bytes.length + content.length < 2 ^ 64)
    (habsorbing : Absorbing H now.payloadHash bytes)
    (hlen : now.referenced.length = chunks.length) :
    ∃ payloadHash, checkPiece H chunks false piece now = Except.ok
        { pieceBytes := UInt64.ofNat (bytes ++ content).length
          payloadHash := payloadHash
          recordHash := appendRecordHash now.recordHash (H.hashBytes content)
            (UInt64.ofNat content.length)
          referenced := now.referenced.set piece.chunkId.toNat true } ∧
      Absorbing H payloadHash (bytes ++ content) := by
  obtain ⟨pieceBytes, payloadHash, recordHash, referenced⟩ := now
  obtain ⟨chunk, hchunk, hcodes, hsize, -, hhash, hoffset, hwhole⟩ := h
  dsimp only at hbytes habsorbing hlen ⊢
  have hlt := (List.getElem?_eq_some_iff.mp hchunk).1
  have hmet : piece.chunkId.toNat < referenced.length := by rwa [hlen]
  have hcontent : chunk.uncompressedBytes.toNat = content.length := by
    rw [hsize, UInt64.toNat_ofNat']
    exact Nat.mod_eq_of_lt (by omega)
  have hsum : checkedAdd pieceBytes piece.size.toUInt64 = true := by
    rw [checkedAdd_iff, hwhole, hcontent, hbytes, UInt64.toNat_ofNat',
      Nat.mod_eq_of_lt (by omega)]
    exact hfits
  have hnext : UInt64.ofNat (bytes ++ content).length = pieceBytes + piece.size.toUInt64 := by
    rw [hwhole, hsize, hbytes, List.length_append, UInt64.ofNat_add]
  rw [checkPiece, require_of_holds hlt, ok_bind, fetch_of_lt hchunk, ok_bind,
    require_of_holds ⟨hoffset, hwhole, hsum⟩, ok_bind,
    fetch_of_lt (List.getElem?_eq_getElem hmet), ok_bind, assign_of_lt hmet, ok_bind,
    if_neg Bool.noConfusion, ← hhash, ← hsize, hnext]
  dsimp only
  by_cases hseen : referenced[piece.chunkId.toNat] = false
  · obtain ⟨next, hnow, -, hverify⟩ :=
      @verifyChunk_eq H _ _ _ chunk.uncompressedHash _ hcodes hcontent _ _ habsorbing
    refine ⟨next, ?_, hnow⟩
    rw [if_pos hseen, hverify, if_pos hhash.symm]
    rfl
  -- a chunk met before is not compared with its hash again
  · rw [if_neg hseen]
    cases payloadHash with
    | none =>
        refine ⟨none, rfl, ?_⟩
        intro state hnone
        cases hnone
    | some state =>
        obtain ⟨next, habsorbed, happend⟩ :=
          appendDecodedBytes_eq hcodes hcontent (habsorbing state rfl)
        refine ⟨some next, ?_, ?_⟩
        · dsimp only
          rw [happend]
          rfl
        · rintro _ ⟨⟩
          exact habsorbed

/-- The pieces of a record. -/
theorem checkPieces_eq {pieces : List ArchivePiece} {contents : List (List UInt8)}
    (h : List.Forall₂ (Cites H chunks) pieces contents) (now : PieceCheck H) (bytes : List UInt8)
    (hbytes : now.pieceBytes = UInt64.ofNat bytes.length)
    (hfits : bytes.length + contents.flatten.length < 2 ^ 64)
    (habsorbing : Absorbing H now.payloadHash bytes)
    (hlen : now.referenced.length = chunks.length) :
    ∃ final, forEach pieces (checkPiece H chunks false) now = Except.ok final ∧
      final.pieceBytes = UInt64.ofNat (bytes ++ contents.flatten).length ∧
      Absorbing H final.payloadHash (bytes ++ contents.flatten) ∧
      final.recordHash = Placed.hashChunks H now.recordHash contents ∧
      final.referenced = mark now.referenced pieces := by
  induction h generalizing now bytes with
  | nil =>
      rw [List.flatten_nil, List.append_nil]
      exact ⟨now, rfl, hbytes, habsorbing, rfl, rfl⟩
  | @cons piece content pieces contents hpiece _ ih =>
      rw [List.flatten_cons, List.length_append] at hfits
      obtain ⟨payloadHash, hstep, hnow⟩ :=
        checkPiece_eq hpiece now hbytes (by omega) habsorbing hlen
      obtain ⟨final, hloop, hfinal, hdone, hrecord, hall⟩ :=
        ih ⟨_, payloadHash, appendRecordHash now.recordHash (H.hashBytes content)
          (UInt64.ofNat content.length), now.referenced.set piece.chunkId.toNat true⟩
          (bytes ++ content) rfl (by rw [List.length_append]; omega) hnow
          (by rw [List.length_set]; exact hlen)
      rw [List.append_assoc, ← List.flatten_cons] at hfinal hdone
      refine ⟨final, ?_, hfinal, hdone, hrecord, hall⟩
      rw [forEach_cons, hstep]
      exact hloop

/-- One record. -/
theorem checkRecord_eq {contents : List (List UInt8)} {entry : Placed} {record : ArchiveRecord}
    (h : Archived H chunks entry record) (hstands : entry.Stands H contents)
    (hfields : recordFieldsValid entry.metadata = true) (now : RecordCheck)
    (hfits : now.logicalBytes.toNat + entry.bytes.length < 2 ^ 64)
    (hlen : now.referenced.length = chunks.length) :
    checkRecord H chunks false record now = Except.ok
      { logicalBytes := now.logicalBytes + entry.metadata.completedBytes
        archiveHash := mix now.archiveHash (entry.recordHash H)
        referenced := mark now.referenced record.pieces } := by
  have hcompleted := hstands.completed
  have hword : entry.metadata.completedBytes = UInt64.ofNat entry.bytes.length := by
    rw [← hcompleted, UInt64.ofNat_toNat]
  have hguard : recordFieldsValid record.metadata = true ∧
      checkedAdd now.logicalBytes record.metadata.completedBytes = true := by
    rw [h.metadata]
    refine ⟨hfields, ?_⟩
    rw [checkedAdd_iff, hcompleted]
    exact hfits
  have hshort : ([] : List UInt8).length + entry.chunks.flatten.length < 2 ^ 64 := by
    have hflat : entry.chunks.flatten.length = entry.bytes.length := rfl
    rw [List.length_nil, hflat]
    omega
  obtain ⟨final, hloop, hbytes, hdone, hrecord, hmet⟩ :=
    checkPieces_eq h.cites
      ⟨0, if ¬ false = true ∧ wholeChunk record chunks = false then some H.start else none,
        beginRecordHash record.metadata record.metadata.completedBytes
          (UInt64.ofNat record.pieces.length), now.referenced⟩ [] rfl hshort
      (absorbing_ite _) hlen
  have hend : final.pieceBytes = record.metadata.completedBytes ∧
      ∀ state ∈ final.payloadHash, H.finish state = record.metadata.payloadHash := by
    rw [h.metadata]
    refine ⟨hbytes.trans hword.symm, ?_⟩
    intro state hstate
    rw [(hdone state hstate).finish, hstands.hash]
    rfl
  have hhash : final.recordHash = entry.recordHash H := by
    rw [hrecord, Placed.recordHash, h.metadata, h.cites.length_eq]
  rw [checkRecord]
  dsimp only
  rw [require_of_holds hguard, ok_bind]
  rw [hloop, ok_bind, require_of_holds hend, ok_bind, h.metadata, hhash, hmet]
  rfl

/-- The records. -/
theorem checkRecords_eq {contents : List (List UInt8)} {entries : List Placed}
    {records : List ArchiveRecord} (h : List.Forall₂ (Archived H chunks) entries records)
    (hstands : ∀ entry ∈ entries, entry.Stands H contents)
    (hfields : ∀ entry ∈ entries, recordFieldsValid entry.metadata = true) (now : RecordCheck)
    (hfits : now.logicalBytes.toNat + Placed.total entries < 2 ^ 64)
    (hlen : now.referenced.length = chunks.length) :
    ∃ final, forEach records (checkRecord H chunks false) now = Except.ok final ∧
      final.logicalBytes.toNat = now.logicalBytes.toNat + Placed.total entries ∧
      final.archiveHash = mixAll now.archiveHash (entries.map (Placed.recordHash H)) ∧
      final.referenced = mark now.referenced (records.flatMap ArchiveRecord.pieces) := by
  induction h generalizing now with
  | nil => exact ⟨now, rfl, rfl, rfl, rfl⟩
  | @cons entry record entries records hrecord _ ih =>
      have htotal : Placed.total (entry :: entries) =
          entry.bytes.length + Placed.total entries := rfl
      have hfirst := hstands entry List.mem_cons_self
      have hstep := checkRecord_eq hrecord hfirst (hfields entry List.mem_cons_self) now
        (by omega) hlen
      have hsum : (now.logicalBytes + entry.metadata.completedBytes).toNat =
          now.logicalBytes.toNat + entry.bytes.length := by
        rw [toNat_add_of_fits (by rw [hfirst.completed]; omega), hfirst.completed]
      obtain ⟨final, hloop, hlogical, hhash, hmet⟩ :=
        ih (fun other hother => hstands other (List.mem_cons_of_mem _ hother))
          (fun other hother => hfields other (List.mem_cons_of_mem _ hother))
          { logicalBytes := now.logicalBytes + entry.metadata.completedBytes
            archiveHash := mix now.archiveHash (entry.recordHash H)
            referenced := mark now.referenced record.pieces }
          (by dsimp only; omega) (by dsimp only; rw [length_mark]; exact hlen)
      refine ⟨final, ?_, ?_, hhash, ?_⟩
      · rw [forEach_cons, hstep]
        exact hloop
      · rw [hlogical]
        dsimp only
        omega
      · rw [hmet, List.flatMap_cons, mark_append]

end Records

/-! ### The chunks of a store -/

namespace Store

/-- The chunk that a blob is archived as. -/
def chunkOf (index : Nat) (blob : Blob) : ArchiveChunk where
  chunkId := UInt64.ofNat index
  codec := blob.codec
  uncompressedBytes := blob.uncompressedBytes
  encodedBytes := blob.encodedBytes
  uncompressedHash := blob.payloadHash
  encoded := blob.encoded

theorem archiveChunks_getElem? (blobs : List Blob) (first offset i : Nat) :
    (archiveChunks none blobs first offset)[i]? = blobs[i]?.map (chunkOf (first + i)) := by
  induction blobs generalizing first offset i with
  | nil => rfl
  | cons blob blobs ih =>
      cases i with
      | zero => rfl
      | succ i =>
          rw [archiveChunks, List.getElem?_cons_succ, ih, List.getElem?_cons_succ, Nat.add_assoc,
            Nat.add_comm 1 i]

@[simp] theorem length_archiveChunks (blobs : List Blob) (first offset : Nat) :
    (archiveChunks none blobs first offset).length = blobs.length := by
  induction blobs generalizing first offset with
  | nil => rfl
  | cons blob blobs ih => rw [archiveChunks, List.length_cons, ih, List.length_cons]

theorem length_encoded_archiveChunks (blobs : List Blob) (first offset : Nat) :
    ((archiveChunks none blobs first offset).flatMap ArchiveChunk.encoded).length =
      encodedLength blobs := by
  induction blobs generalizing first offset with
  | nil => rfl
  | cons blob blobs ih =>
      rw [archiveChunks, List.flatMap_cons, List.length_append, ih]
      rfl

variable {blobs : List Blob} {contents : List (List UInt8)}

/-- The chunks pass the check, and the words count their bytes. -/
theorem checkChunks_eq (h : List.Forall₂ (Blob.Holds H) blobs contents) (storage : StorageReport)
    (first offset : Nat) (before : UInt64) (hfew : first + blobs.length < 2 ^ 64)
    (hfits : before.toNat + encodedLength blobs < 2 ^ 64) :
    ∃ encoded, forEach (archiveChunks none blobs first offset) (checkChunk storage false)
        (first, before) = Except.ok (first + blobs.length, encoded) ∧
      encoded.toNat = before.toNat + encodedLength blobs := by
  induction h generalizing first offset before with
  | nil => exact ⟨before, rfl, rfl⟩
  | @cons blob content blobs contents hblob _ ih =>
      have hencoded : encodedLength (blob :: blobs) = blob.encoded.length + encodedLength blobs :=
        rfl
      have hsize := hblob.encoded_size
      have hchunk := hblob.chunk
      have hshorter := hblob.shorter
      have huncompressed := hblob.size
      rw [List.length_cons] at hfew ⊢
      have hsum : (before + blob.encodedBytes).toNat = before.toNat + blob.encoded.length := by
        rw [toNat_add_of_fits (by omega), hsize]
      have hguard : (UInt64.ofNat first).toNat = first ∧
          ¬ blob.uncompressedBytes.toNat > kChunkBytes ∧ ¬ blob.encodedBytes.toNat > kChunkBytes ∧
          false = false ∧ checkedAdd before blob.encodedBytes = true := by
        refine ⟨?_, by omega, by omega, rfl, checkedAdd_iff.mpr (by omega)⟩
        rw [UInt64.toNat_ofNat']
        exact Nat.mod_eq_of_lt (by omega)
      obtain ⟨encoded, hloop, htotal⟩ := ih (first + 1) (offset + blob.encoded.length)
        (before + blob.encodedBytes) (by omega) (by omega)
      refine ⟨encoded, ?_, by omega⟩
      have hstep : checkChunk storage false (chunkOf first blob) (first, before) =
          Except.ok (first + 1, before + blob.encodedBytes) := by
        dsimp only [checkChunk, chunkOf]
        rw [require_of_holds hguard, ok_bind, if_pos Bool.noConfusion,
          require_of_holds ⟨hsize, rfl, rfl, rfl⟩]
        rfl
      have hfirst : archiveChunks none (blob :: blobs) first offset =
          chunkOf first blob :: archiveChunks none blobs (first + 1)
            (offset + blob.encoded.length) := rfl
      rw [hfirst, forEach_cons, hstep, ok_bind, hloop, Nat.add_assoc, Nat.add_comm 1]

/-- A piece of the store is archived as one that cites its chunk. -/
theorem archivePieces_spec (h : List.Forall₂ (Blob.Holds H) blobs contents)
    {pieces : List Piece} {chunks : List (List UInt8)}
    (hpieces : List.Forall₂ (fun piece chunk => contents[piece.blobIndex.toNat]? = some chunk)
      pieces chunks) :
    List.Forall₂ (Cites H (archiveChunks none blobs 0 0)) (archivePieces blobs pieces) chunks ∧
      (archivePieces blobs pieces).map ArchivePiece.chunkId =
        pieces.map fun piece => piece.blobIndex.toUInt64 := by
  induction hpieces with
  | nil => exact ⟨List.Forall₂.nil, rfl⟩
  | @cons piece content pieces chunks hpiece _ ih =>
      obtain ⟨hcites, hindices⟩ := ih
      obtain ⟨blob, hblob, hholds⟩ := forall₂_getElem? h.flip hpiece
      have hfirst : archivePieces blobs (piece :: pieces) =
          ⟨piece.blobIndex.toUInt64, 0, blob.uncompressedBytes.toUInt32⟩ ::
            archivePieces blobs pieces := by
        rw [archivePieces, List.filterMap_cons, hblob]
        rfl
      have hsize := hholds.size
      have hchunk := hholds.chunk
      have hword : blob.uncompressedBytes.toUInt32.toUInt64 = blob.uncompressedBytes := by
        apply UInt64.toNat_inj.mp
        rw [UInt32.toNat_toUInt64, UInt64.toNat_toUInt32]
        rw [kChunkBytes] at hchunk
        exact Nat.mod_eq_of_lt (by omega)
      have hindex : (piece.blobIndex.toUInt64).toNat = piece.blobIndex.toNat :=
        UInt32.toNat_toUInt64 _
      rw [hfirst]
      refine ⟨List.Forall₂.cons ⟨chunkOf piece.blobIndex.toNat blob, ?_, hholds.codes, ?_, hchunk,
        hholds.hash, rfl, hword⟩ hcites, ?_⟩
      · show (archiveChunks none blobs 0 0)[(piece.blobIndex.toUInt64).toNat]? = _
        rw [hindex, archiveChunks_getElem?, hblob, Nat.zero_add]
        rfl
      · rw [← hsize, UInt64.ofNat_toNat]
        rfl
      · rw [List.map_cons, List.map_cons, hindices]

/-! ### The archive -/

variable {store : Store} {entries : List Placed}

/-- The archived records are those of the entries. -/
theorem Shows.archived (h : store.Shows H entries contents) :
    List.Forall₂ (Archived H (archiveChunks none store.backend.blobs 0 0)) entries
      (store.records.items.map fun record =>
        { metadata := record.metadata
          pieces := archivePieces store.backend.blobs (store.recordPieces record) }) := by
  rw [List.forall₂_iff_get]
  refine ⟨by rw [List.length_map, h.records, Placed.length_layout], ?_⟩
  intro i hi hrecord
  rw [List.length_map] at hrecord
  have hget : entries[i]? = some (entries.get ⟨i, hi⟩) := List.getElem?_eq_getElem hi
  obtain ⟨hpieces, hmetadata, -⟩ :=
    h.recordPieces_eq hget (List.getElem?_eq_getElem hrecord)
  obtain ⟨hcites, hindices⟩ := archivePieces_spec h.keeps.blobs
    (h.stands _ (List.mem_of_getElem? hget)).pieces
  simp only [List.get_eq_getElem, List.getElem_map] at hpieces hmetadata hcites hindices ⊢
  rw [hpieces]
  exact ⟨hmetadata, hcites, hindices⟩

theorem Shows.length_archived (h : store.Shows H entries contents) :
    (store.records.items = [] ↔ entries = []) ∧ store.records.items.length = entries.length := by
  have hlen : store.records.items.length = entries.length := by
    rw [h.records, Placed.length_layout]
  refine ⟨?_, hlen⟩
  rw [← List.length_eq_zero_iff, ← List.length_eq_zero_iff, hlen]

/-- A store that was only appended to has laid nothing out yet. -/
theorem Holds.archive_chunks (h : store.Holds H entries contents)
    (adjacent : List ArchiveChunk → Bool) :
    (store.archive adjacent).1.chunks = archiveChunks none store.backend.blobs 0 0 := by
  rw [archive]
  dsimp only
  split_ifs with hcached
  · rw [h.unpublished.2] at hcached
    rw [List.length_eq_zero_iff.mp hcached.1.symm]
    rfl
  · rfl

theorem compact_spec (adjacent : List ArchiveChunk → Bool) (chunks : List ArchiveChunk) :
    (compact adjacent chunks).1 = UInt64.ofNat (chunks.flatMap ArchiveChunk.encoded).length ∧
      ((compact adjacent chunks).2 = 0 ∨
        (compact adjacent chunks).2 =
          UInt64.ofNat (chunks.flatMap ArchiveChunk.encoded).length) := by
  rw [compact]
  split_ifs with hempty hadjacent
  · refine ⟨?_, Or.inl rfl⟩
    rcases hempty with rfl | hzero
    · rfl
    · exact hzero.symm
  · exact ⟨rfl, Or.inl rfl⟩
  · exact ⟨rfl, Or.inr rfl⟩

theorem map_layout (H : ByteHasher) (offset : Nat) (entries : List Placed) :
    (Placed.layout H offset entries).map StoredRecord.recordHash =
      entries.map (Placed.recordHash H) := by
  induction entries generalizing offset with
  | nil => rfl
  | cons entry entries ih => rw [Placed.layout, List.map_cons, ih, List.map_cons]

/-- The hash over all payloads is the one over the entries. -/
theorem Shows.payloadHash_eq (h : store.Shows H entries contents)
    (hnew : store.loadedArchive = false) :
    store.payloadHash =
      if entries = [] then 0 else archiveHash (entries.map (Placed.recordHash H)) := by
  have hempty := h.length_archived.1
  rw [payloadHash, hnew, if_congr hempty rfl rfl, h.records, map_layout]
  rfl

theorem Holds.payloadHash_eq (h : store.Holds H entries contents) :
    store.payloadHash =
      if entries = [] then 0 else archiveHash (entries.map (Placed.recordHash H)) :=
  h.toShows.payloadHash_eq h.fresh.1

/-- A store without entries keeps no blobs. -/
theorem Holds.blobs_nil (h : store.Holds H [] contents) : store.backend.blobs = [] := by
  have hle := h.blobs_le_pieces
  rw [← h.keeps.length_eq, h.pieces] at hle
  exact List.length_eq_zero_iff.mp (Nat.le_zero.mp hle)

/-- What the archive of a store reports. -/
structure Reported (store : Store) (report : StorageReport) : Prop where
  mode : report.mode = .memory
  logical : report.logicalBytes = store.logicalBytes
  encoded : report.encodedBytes = store.backend.memory.encodedBytes
  retained : report.retainedBytes = report.encodedBytes
  copied : report.copiedBytes = 0 ∨ report.copiedBytes = report.encodedBytes
  unspilled : report.physicalBytes = 0 ∧ report.allocatedBytes = 0 ∧ report.reservedBytes = 0 ∧
    report.segmentCount = 0
  growths : report.growths = counterSaturatingAdd store.backend.memory.growths store.growths
  chunks : report.chunkCount = UInt64.ofNat store.backend.blobs.length

theorem Holds.report_archive (h : store.Holds H entries contents)
    (adjacent : List ArchiveChunk → Bool) :
    store.Reported (store.archive adjacent).1.storage := by
  have hencoded : UInt64.ofNat (encodedLength store.backend.blobs) =
      store.backend.memory.encodedBytes := by
    rw [← h.keeps.encoded, UInt64.ofNat_toNat]
  obtain ⟨hretained, hcopied⟩ := compact_spec adjacent (store.archive adjacent).1.chunks
  rw [h.archive_chunks, length_encoded_archiveChunks, hencoded, ← h.archive_chunks adjacent]
    at hretained hcopied
  exact
    { mode := rfl
      logical := rfl
      encoded := rfl
      retained := hretained
      copied := hcopied
      unspilled := ⟨rfl, rfl, rfl, rfl⟩
      growths := rfl
      chunks := rfl }

/-- The archive is the one of a store with these entries. -/
structure Published (H : ByteHasher) (store : Store) (entries : List Placed)
    (archive : PayloadArchive) : Prop where
  records : List.Forall₂ (Archived H archive.chunks) entries archive.records
  chunks : archive.chunks = archiveChunks none store.backend.blobs 0 0
  payloadHash : archive.payloadHash = store.payloadHash
  report : store.Reported archive.storage
  diagnostic : archive.diagnostic = {}
  unspilled : archive.spillGeneration = false

theorem Holds.published (h : store.Holds H entries contents)
    (adjacent : List ArchiveChunk → Bool) :
    store.Published H entries (store.archive adjacent).1 where
  records := by
    rw [h.archive_chunks]
    exact h.toShows.archived
  chunks := h.archive_chunks adjacent
  payloadHash := rfl
  report := h.report_archive adjacent
  diagnostic := by
    show (if store.loadedDiagnosticActive then store.loadedDiagnostic else {}) = _
    rw [h.fresh.2]
    rfl
  unspilled := rfl

section Published

variable {archive : PayloadArchive}

theorem Published.length_chunks (p : store.Published H entries archive) :
    archive.chunks.length = store.backend.blobs.length := by
  rw [p.chunks, length_archiveChunks]

theorem Published.records_nil_iff (p : store.Published H entries archive) :
    archive.records = [] ↔ entries = [] := by
  rw [← List.length_eq_zero_iff, ← p.records.length_eq, List.length_eq_zero_iff]

/-- Every chunk is cited, because a store keeps a blob only for a piece. -/
theorem Published.cited (p : store.Published H entries archive)
    (h : store.Holds H entries contents) :
    ∀ i < archive.chunks.length, ∃ piece ∈ archive.records.flatMap ArchiveRecord.pieces,
      piece.chunkId.toNat = i := by
  intro i hi
  rw [p.length_chunks, h.keeps.length_eq] at hi
  obtain ⟨piece, hpiece, hat⟩ := h.referenced i hi
  have hmem : piece.blobIndex.toUInt64 ∈
      (archive.records.flatMap ArchiveRecord.pieces).map ArchivePiece.chunkId := by
    rw [chunkIds_eq p.records, ← h.pieces]
    exact List.mem_map.mpr ⟨piece, hpiece, rfl⟩
  obtain ⟨other, hother, hchunk⟩ := List.mem_map.mp hmem
  refine ⟨other, hother, ?_⟩
  rw [hchunk, UInt32.toNat_toUInt64, hat]

/-- An archive without records. -/
theorem Published.empty (p : store.Published H [] archive) (h : store.Holds H [] contents) :
    emptyArchiveValid archive = true := by
  have hblobs := h.blobs_nil
  have hreport := p.report
  have hlogical : store.logicalBytes = 0 := UInt64.toNat_inj.mp h.logical
  have hencoded : archive.storage.encodedBytes = 0 := by
    apply UInt64.toNat_inj.mp
    rw [hreport.encoded, h.keeps.encoded, hblobs]
    rfl
  have hcopied : archive.storage.copiedBytes = 0 :=
    hreport.copied.elim id fun hsame => hsame.trans hencoded
  have hgrowths : archive.storage.growths = 0 := by
    rw [hreport.growths, (h.growths rfl).1, (h.growths rfl).2]
    rfl
  have hcount : archive.storage.chunkCount = 0 := by
    rw [hreport.chunks, hblobs]
    rfl
  have hchunks : archive.chunks = [] := by
    rw [p.chunks, hblobs]
    rfl
  have hpayload : archive.payloadHash = 0 := by
    rw [p.payloadHash, h.payloadHash_eq]
    rfl
  obtain ⟨hphysical, hallocated, hreserved, hsegments⟩ := hreport.unspilled
  rw [emptyArchiveValid, hchunks, hpayload, hreport.logical, hlogical, hreport.retained, hencoded,
    hcopied, hphysical, hallocated, hreserved, hgrowths, hcount, hsegments, p.unspilled]
  rfl

theorem Published.storageModeValid (p : store.Published H entries archive) :
    storageModeValid archive = true := by
  obtain ⟨hphysical, hallocated, hreserved, -⟩ := p.report.unspilled
  rw [RunD.storageModeValid, p.report.mode]
  simp only [p.report.retained, hphysical, hallocated, hreserved, p.unspilled,
    beq_self_eq_true, Bool.true_and, Bool.and_true, Bool.not_false, Bool.or_eq_true, beq_iff_eq]
  exact p.report.copied

/-- **The archive of a store is valid**, when its records have the fields that the check asks for
and the hash over them is not zero. -/
theorem Published.valid (p : store.Published H entries archive)
    (h : store.Holds H entries contents)
    (hfields : ∀ entry ∈ entries, recordFieldsValid entry.metadata = true)
    (hhash : entries ≠ [] → store.payloadHash ≠ 0) : validArchive H archive = true := by
  have hsame : checkDiagnosticArchive H {} = Except.ok () := by rfl
  rw [validArchive, checkArchive, p.diagnostic, hsame, ok_bind]
  by_cases hnone : entries = []
  · subst hnone
    rw [if_pos (p.records_nil_iff.mpr rfl), require_of_holds (p.empty h)]
    rfl
  have hblobs := h.blobs_length_le
  have hfew := h.accepted.pieces
  have hle := h.accepted.blobs
  have htotal := h.logical_le
  have hword := store.limits.bytes.toNat_lt
  have hkept := h.encoded_le
  have hlen := p.length_chunks
  obtain ⟨encoded, hloop, hencoded⟩ := checkChunks_eq h.keeps.blobs archive.storage 0 0 0
    (by omega) (by rw [UInt64.toNat_zero]; omega)
  obtain ⟨final, hrun, hlogical, hhashed, hmet⟩ := checkRecords_eq p.records h.stands hfields
    { logicalBytes := 0
      archiveHash := mix kFnvOffset (UInt64.ofNat archive.records.length)
      referenced := List.replicate archive.chunks.length false }
    (by dsimp only; rw [UInt64.toNat_zero]; omega) List.length_replicate
  rw [UInt64.toNat_zero, Nat.zero_add] at hencoded
  dsimp only at hlogical hhashed hmet
  rw [UInt64.toNat_zero, Nat.zero_add] at hlogical
  have hall : final.referenced.all id = true := by
    rw [hmet]
    exact all_mark (p.cited h)
  have hcount : archive.storage.chunkCount.toNat = archive.chunks.length := by
    rw [p.report.chunks, hlen, UInt64.toNat_ofNat']
    exact Nat.mod_eq_of_lt (by omega)
  have hsum : final.logicalBytes = archive.storage.logicalBytes := by
    rw [p.report.logical]
    exact UInt64.toNat_inj.mp (hlogical.trans h.logical.symm)
  have hbytes : encoded = archive.storage.encodedBytes := by
    rw [p.report.encoded]
    exact UInt64.toNat_inj.mp (hencoded.trans h.keeps.encoded.symm)
  have harchive : final.archiveHash = archive.payloadHash := by
    rw [hhashed, p.payloadHash, h.payloadHash_eq, if_neg hnone, archiveHash, List.length_map,
      p.records.length_eq]
  have hguard : archive.payloadHash ≠ 0 ∧ ¬ archive.chunks.length > 0xffffffff ∧
      RunD.storageModeValid archive = true := by
    refine ⟨?_, by omega, p.storageModeValid⟩
    rw [p.payloadHash]
    exact hhash hnone
  have hmemory : decide (archive.storage.mode = .spill) = false := by
    rw [p.report.mode]
    rfl
  rw [if_neg (p.records_nil_iff.not.mpr hnone), require_of_holds hguard, ok_bind]
  dsimp only
  rw [hmemory, p.chunks, hloop, ← p.chunks, ok_bind, hrun, ok_bind, require_of_holds hall, ok_bind,
    require_of_holds]
  · rfl
  · refine ⟨hsum, hbytes, hcount, ?_, harchive⟩
    rw [if_neg Bool.noConfusion]
    exact p.report.unspilled.2.2.2

end Published

end Store

end RunD
