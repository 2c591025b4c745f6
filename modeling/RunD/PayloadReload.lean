/-
Publishing a store and building another one from what was published.

A new store is made with room for exactly what the archive lists.  Its blobs,
its pieces and the places of its records are then those of the old store
(`loadRecords_eq`), and the hashes that it computes again are the ones that
were kept when the records were appended (`Shows.computeRecordHashes_eq`).
-/
import RunD.PayloadArchive

namespace RunD

variable {ε : Type} {H : ByteHasher}

/-! ### Limits -/

theorem PayloadIndex.isSome_make {capacity : Nat} (h : capacity ≤ 0xffffffff) :
    (PayloadIndex.make capacity).isSome = true := by
  rw [PayloadIndex.make]
  split_ifs with hzero hlarge
  · rfl
  · rw [kSizeMax] at hlarge
    omega
  · have hgrow := @isSome_growLoop (capacity * 2) 65 0 (by omega) (by omega) (by omega)
    obtain ⟨size, hsize⟩ := Option.isSome_iff_exists.mp hgrow
    rw [pow_zero] at hsize
    rw [hsize]
    rfl

theorem Placed.countRole_cons (role : Role) (entry : Placed) (entries : List Placed) :
    countRole role (entry :: entries) =
      (if entry.metadata.role = role then 1 else 0) + countRole role entries := by
  rw [countRole, List.countP_cons, Nat.add_comm]
  simp [countRole]

theorem countRecord_eq {record : ArchiveRecord} (limits : Limits)
    (hpieces : limits.pieces + record.pieces.length ≤ kSizeMax)
    (hbytes : limits.bytes.toNat + record.metadata.completedBytes.toNat < 2 ^ 64) :
    ∃ next, Limits.countRecord record limits = Except.ok next ∧
      next.hosts = limits.hosts + (if record.metadata.role = .host then 1 else 0) ∧
      next.inputs = limits.inputs + (if record.metadata.role = .input then 1 else 0) ∧
      next.pieces = limits.pieces + record.pieces.length ∧
      next.bytes.toNat = limits.bytes.toNat + record.metadata.completedBytes.toNat ∧
      next.staged = limits.staged := by
  have hroom : ¬ record.pieces.length > kSizeMax - limits.pieces := by omega
  have hadd := checkedAdd_iff.mpr hbytes
  have hsum := toNat_add_of_fits hbytes
  rw [Limits.countRecord]
  cases hrole : record.metadata.role with
  | host =>
      dsimp only
      rw [require_of_holds hroom, ok_bind, require_of_holds hadd]
      exact ⟨_, rfl, rfl, rfl, rfl, hsum, rfl⟩
  | input =>
      dsimp only
      rw [require_of_holds hroom, ok_bind, require_of_holds hadd]
      exact ⟨_, rfl, rfl, rfl, rfl, hsum, rfl⟩

/-- The limits of an archive count its records, its pieces and its bytes. -/
theorem countRecords_eq {chunks : List ArchiveChunk} {contents : List (List UInt8)}
    {entries : List Placed} {records : List ArchiveRecord}
    (h : List.Forall₂ (Archived H chunks) entries records)
    (hstands : ∀ entry ∈ entries, entry.Stands H contents) (limits : Limits)
    (hpieces : limits.pieces + (entries.flatMap Placed.pieces).length ≤ 0xffffffff)
    (hbytes : limits.bytes.toNat + Placed.total entries < 2 ^ 64) :
    ∃ final, forEach records Limits.countRecord limits = Except.ok final ∧
      final.hosts = limits.hosts + Placed.countRole .host entries ∧
      final.inputs = limits.inputs + Placed.countRole .input entries ∧
      final.pieces = limits.pieces + (entries.flatMap Placed.pieces).length ∧
      final.bytes.toNat = limits.bytes.toNat + Placed.total entries ∧
      final.staged = limits.staged := by
  induction h generalizing limits with
  | nil => exact ⟨limits, rfl, rfl, rfl, rfl, rfl, rfl⟩
  | @cons entry record entries records hrecord _ ih =>
      have htotal : Placed.total (entry :: entries) =
          entry.bytes.length + Placed.total entries := rfl
      have hcompleted := (hstands entry List.mem_cons_self).completed
      have hlen : record.pieces.length = entry.pieces.length := by
        have hmap := congrArg List.length hrecord.pieces
        rwa [List.length_map, List.length_map] at hmap
      rw [List.flatMap_cons, List.length_append] at hpieces ⊢
      rw [← hrecord.metadata] at hcompleted
      obtain ⟨next, hstep, hhosts, hinputs, hcount, hbytes', hstaged⟩ :=
        @countRecord_eq record limits (by rw [kSizeMax]; omega) (by omega)
      obtain ⟨final, hloop, hhosts', hinputs', hcount', htotal', hstaged'⟩ :=
        ih (fun other hother => hstands other (List.mem_cons_of_mem _ hother)) next
          (by omega) (by omega)
      rw [hrecord.metadata] at hhosts hinputs
      refine ⟨final, ?_, ?_, ?_, by omega, by omega, hstaged'.trans hstaged⟩
      · rw [forEach_cons, hstep]
        exact hloop
      · rw [hhosts', hhosts, Placed.countRole_cons, Nat.add_assoc]
      · rw [hinputs', hinputs, Placed.countRole_cons, Nat.add_assoc]

namespace Store

section Published

variable {store : Store} {entries : List Placed} {contents : List (List UInt8)}
  {archive : PayloadArchive}

/-- The limits of the archive of a store. -/
structure Listed (entries : List Placed) (blobs : List Blob) (limits : Limits) : Prop where
  hosts : limits.hosts = Placed.countRole .host entries
  inputs : limits.inputs = Placed.countRole .input entries
  pieces : limits.pieces = (entries.flatMap Placed.pieces).length
  blobs : limits.blobs = blobs.length
  staged : limits.staged = 0
  bytes : limits.bytes.toNat = Placed.total entries

theorem Published.limits_eq (p : store.Published H entries archive)
    (h : store.Holds H entries contents) :
    ∃ limits, Limits.archive archive = Except.ok limits ∧
      Listed entries store.backend.blobs limits := by
  have htotal := h.logical_le
  have hword := store.limits.bytes.toNat_lt
  have hpieces := h.pieces_le
  have hrecords := h.accepted.records
  have hhosts := h.roles_le .host
  have hinputs := h.roles_le .input
  have hblobs := h.blobs_length_le
  have hle := h.accepted.blobs
  have hfew := h.accepted.pieces
  rw [h.pieces] at hpieces
  obtain ⟨limits, hloop, hlist⟩ := countRecords_eq p.records h.stands {}
    (by rw [Nat.zero_add]; exact hpieces) (by rw [UInt64.toNat_zero]; omega)
  simp only [Nat.zero_add, UInt64.toNat_zero] at hlist
  obtain ⟨hhost, hinput, hpiece, hbyte, hstaged⟩ := hlist
  have hguard : fitsU32 (limits.hosts + limits.inputs) = true ∧ fitsU32 limits.pieces = true ∧
      fitsU32 archive.chunks.length = true := by
    simp only [roleLimit] at hhosts hinputs
    simp only [fitsU32, decide_eq_true_eq, p.length_chunks]
    omega
  refine ⟨{ limits with blobs := archive.chunks.length }, ?_, hhost, hinput, hpiece,
    p.length_chunks, hstaged, hbyte⟩
  rw [Limits.archive, hloop, ok_bind]
  dsimp only
  rw [require_of_holds hguard]
  rfl

/-- The store that an archive is loaded into can be made. -/
theorem Listed.make_eq {limits : Limits} {blobs : List Blob} (l : Listed entries blobs limits)
    (h : store.Holds H entries contents) (hblobs : blobs = store.backend.blobs)
    {storage : MemoryStorage} (hstorage : ¬ limits.bytes > storage.maxBytes) :
    ∃ fresh, Store.make storage limits = some fresh := by
  have hpieces := h.pieces_le
  have hrecords := h.accepted.records
  have hhosts := h.roles_le .host
  have hinputs := h.roles_le .input
  have hle := h.blobs_le_pieces
  have hkept := h.keeps.length_eq
  rw [h.pieces] at hpieces hle
  have hlen := l.blobs
  rw [hblobs] at hlen
  obtain ⟨index, hindex⟩ := Option.isSome_iff_exists.mp
    (@PayloadIndex.isSome_make limits.blobs (by omega))
  have hrefused : ¬ (limits.bytes > storage.maxBytes ∨
      fitsU32 (limits.hosts + limits.inputs) = false ∨ fitsU32 limits.pieces = false ∨
      fitsU32 limits.blobs = false ∨ fitsU32 limits.staged = false ∨
      limits.staged > limits.pieces ∨ limits.blobs > limits.pieces) := by
    simp only [roleLimit] at hhosts hinputs
    simp only [fitsU32, decide_eq_false_iff_not, not_or, not_lt, not_not, l.hosts, l.inputs,
      l.pieces, l.staged, hlen]
    refine ⟨hstorage, ?_⟩
    omega
  rw [Store.make, l.staged, Backend.make, hindex]
  exact ⟨_, if_neg (by rw [← l.staged]; exact hrefused)⟩

end Published

/-! ### Loading -/

/-- The blobs are read out of the chunks again. -/
theorem loadChunks_eq {blobs : List Blob} {contents : List (List UInt8)}
    (h : List.Forall₂ (Blob.Holds H) blobs contents) (before : List Blob) (bytes : UInt64)
    (offset : Nat) (hfew : before.length + blobs.length < 2 ^ 64)
    (hfits : bytes.toNat + encodedLength blobs < 2 ^ 64) :
    ∃ final, forEach (archiveChunks none blobs before.length offset) loadChunk (before, bytes) =
      Except.ok (before ++ blobs, final) := by
  induction h generalizing before bytes offset with
  | nil =>
      rw [List.append_nil]
      exact ⟨bytes, rfl⟩
  | @cons blob content blobs contents hblob _ ih =>
      have hencoded : encodedLength (blob :: blobs) = blob.encoded.length + encodedLength blobs :=
        rfl
      have hsize := hblob.encoded_size
      rw [List.length_cons] at hfew
      have hindex : (UInt64.ofNat before.length).toNat = before.length := by
        rw [UInt64.toNat_ofNat']
        exact Nat.mod_eq_of_lt (by omega)
      have hadd : bytes.toNat + blob.encodedBytes.toNat < 2 ^ 64 := by omega
      have hkept : ¬ (blob.encodedBytes.toNat ≠ blob.encoded.length ∧ false = false) :=
        fun hno => hno.1 hsize
      have hstep : loadChunk (chunkOf before.length blob) (before, bytes) =
          Except.ok (before ++ [blob], bytes + blob.encodedBytes) := by
        dsimp only [loadChunk, chunkOf]
        rw [require_of_holds hindex, ok_bind, require_of_holds hkept, ok_bind,
          require_of_holds rfl, ok_bind, require_of_holds (checkedAdd_iff.mpr hadd)]
        rfl
      have hsum := toNat_add_of_fits hadd
      obtain ⟨final, hloop⟩ := ih (before ++ [blob]) (bytes + blob.encodedBytes)
        (offset + blob.encoded.length) (by rw [List.length_append, List.length_singleton]; omega)
        (by omega)
      rw [List.length_append, List.length_singleton, List.append_assoc,
        List.singleton_append] at hloop
      have hfirst : archiveChunks none (blob :: blobs) before.length offset =
          chunkOf before.length blob :: archiveChunks none blobs (before.length + 1)
            (offset + blob.encoded.length) := rfl
      exact ⟨final, by rw [hfirst, forEach_cons, hstep, ok_bind, hloop]⟩

/-- A record as it is loaded, before its hash is computed. -/
def unhashed (record : StoredRecord) : StoredRecord := { record with recordHash := 0 }

section Load

variable {chunks : List ArchiveChunk}

theorem loadPieces_eq {pieces : List ArchivePiece} {contents : List (List UInt8)}
    (h : List.Forall₂ (Cites H chunks) pieces contents) (before : List Piece) (bytes : List UInt8)
    (hfits : bytes.length + contents.flatten.length < 2 ^ 64) :
    forEach pieces (loadPiece chunks) (before, UInt64.ofNat bytes.length) = Except.ok
      (before ++ pieces.map fun piece => ⟨piece.chunkId.toUInt32⟩,
        UInt64.ofNat (bytes ++ contents.flatten).length) := by
  induction h generalizing before bytes with
  | nil =>
      rw [List.map_nil, List.append_nil, List.flatten_nil, List.append_nil]
      rfl
  | @cons piece content pieces contents hpiece _ ih =>
      rw [List.flatten_cons, List.length_append] at hfits
      obtain ⟨chunk, hchunk, -, hsize, -, -, hoffset, hwhole⟩ := hpiece
      have hlt := (List.getElem?_eq_some_iff.mp hchunk).1
      have hnext : UInt64.ofNat bytes.length + piece.size.toUInt64 =
          UInt64.ofNat (bytes ++ content).length := by
        rw [hwhole, hsize, List.length_append, UInt64.ofNat_add]
      have hadd : checkedAdd (UInt64.ofNat bytes.length) piece.size.toUInt64 = true := by
        rw [checkedAdd_iff, hwhole, hsize, UInt64.toNat_ofNat', UInt64.toNat_ofNat',
          Nat.mod_eq_of_lt (by omega), Nat.mod_eq_of_lt (by omega)]
        omega
      have hstep : loadPiece chunks piece (before, UInt64.ofNat bytes.length) = Except.ok
          (before ++ [⟨piece.chunkId.toUInt32⟩], UInt64.ofNat (bytes ++ content).length) := by
        rw [loadPiece, require_of_holds ⟨hlt, hoffset⟩, ok_bind, fetch_of_lt hchunk, ok_bind,
          require_of_holds hwhole, ok_bind, require_of_holds hadd, ok_bind, hnext]
        rfl
      rw [forEach_cons, hstep, ok_bind,
        ih _ (bytes ++ content) (by rw [List.length_append]; omega), List.append_assoc,
        List.append_assoc, List.map_cons, List.flatten_cons]
      rfl

theorem archived_pieces {entry : Placed} {record : ArchiveRecord}
    (h : Archived H chunks entry record) :
    record.pieces.map (fun piece => (⟨piece.chunkId.toUInt32⟩ : Piece)) = entry.pieces := by
  have hmap := congrArg (List.map fun index : UInt64 => (⟨index.toUInt32⟩ : Piece)) h.pieces
  rw [List.map_map, List.map_map] at hmap
  refine hmap.trans ?_
  refine (List.map_congr_left ?_).trans (List.map_id _)
  intro piece _
  show (⟨piece.blobIndex.toUInt64.toUInt32⟩ : Piece) = piece
  rw [UInt32.toUInt32_toUInt64]

/-- What `LoadRecords` allows is less than what the check of the archive asks for. -/
theorem loadFieldsValid_of_recordFieldsValid {metadata : PayloadRecord}
    (h : recordFieldsValid metadata = true) : loadFieldsValid metadata = true := by
  rw [recordFieldsValid] at h
  rw [loadFieldsValid]
  cases hrole : metadata.role with
  | host =>
      rw [hrole] at h
      simp only [Bool.and_eq_true] at h ⊢
      simp only [h, and_self]
  | input =>
      rw [hrole] at h
      exact h

/-- One record. -/
theorem loadRecord_eq {contents : List (List UInt8)} {entry : Placed} {record : ArchiveRecord}
    (h : Archived H chunks entry record) (hstands : entry.Stands H contents)
    (hfields : recordFieldsValid entry.metadata = true) (now : RecordLoad)
    (hfits : now.logicalBytes.toNat + entry.bytes.length < 2 ^ 64) :
    ∃ next, loadRecord chunks record now = Except.ok next ∧
      next.records = now.records ++ [unhashed
        { metadata := entry.metadata
          recordHash := entry.recordHash H
          pieceOffset := UInt32.ofNat now.pieces.length
          pieceCount := UInt32.ofNat entry.pieces.length }] ∧
      next.pieces = now.pieces ++ entry.pieces ∧
      next.logicalBytes.toNat = now.logicalBytes.toNat + entry.bytes.length := by
  have hcompleted := hstands.completed
  have hlen : record.pieces.length = entry.pieces.length := by
    rw [← archived_pieces h, List.length_map]
  have hflat : entry.chunks.flatten.length = entry.bytes.length := rfl
  have hpieces := loadPieces_eq h.cites now.pieces [] (by rw [List.length_nil]; omega)
  rw [archived_pieces h] at hpieces
  have hadd : now.logicalBytes.toNat + record.metadata.completedBytes.toNat < 2 ^ 64 := by
    rw [h.metadata, hcompleted]
    exact hfits
  have hend : UInt64.ofNat ([] ++ entry.chunks.flatten).length = record.metadata.completedBytes ∧
      checkedAdd now.logicalBytes record.metadata.completedBytes = true := by
    refine ⟨?_, checkedAdd_iff.mpr hadd⟩
    rw [h.metadata, List.nil_append, hflat, ← hcompleted, UInt64.ofNat_toNat]
  have hallowed : loadFieldsValid record.metadata = true := by
    rw [h.metadata]
    exact loadFieldsValid_of_recordFieldsValid hfields
  have hstep : loadRecord chunks record now = Except.ok
      { records := now.records ++ [unhashed
          { metadata := entry.metadata
            recordHash := entry.recordHash H
            pieceOffset := UInt32.ofNat now.pieces.length
            pieceCount := UInt32.ofNat entry.pieces.length }]
        pieces := now.pieces ++ entry.pieces
        logicalBytes := now.logicalBytes + record.metadata.completedBytes } := by
    rw [loadRecord, require_of_holds hallowed, ok_bind]
    have hrun : forEach record.pieces (loadPiece chunks) (now.pieces, 0) = _ := hpieces
    rw [hrun, ok_bind]
    dsimp only
    rw [require_of_holds hend, hlen, h.metadata]
    rfl
  refine ⟨_, hstep, rfl, rfl, ?_⟩
  rw [toNat_add_of_fits hadd, h.metadata, hcompleted]

/-- The records lie where they lay in the store they come from. -/
theorem loadRecords_eq {contents : List (List UInt8)} {entries : List Placed}
    {records : List ArchiveRecord} (h : List.Forall₂ (Archived H chunks) entries records)
    (hstands : ∀ entry ∈ entries, entry.Stands H contents)
    (hfields : ∀ entry ∈ entries, recordFieldsValid entry.metadata = true) (now : RecordLoad)
    (hfits : now.logicalBytes.toNat + Placed.total entries < 2 ^ 64) :
    ∃ final, forEach records (loadRecord chunks) now = Except.ok final ∧
      final.records = now.records ++
        (Placed.layout H now.pieces.length entries).map unhashed ∧
      final.pieces = now.pieces ++ entries.flatMap Placed.pieces ∧
      final.logicalBytes.toNat = now.logicalBytes.toNat + Placed.total entries := by
  induction h generalizing now with
  | nil => exact ⟨now, rfl, (List.append_nil _).symm, (List.append_nil _).symm, rfl⟩
  | @cons entry record entries records hrecord _ ih =>
      have htotal : Placed.total (entry :: entries) =
          entry.bytes.length + Placed.total entries := rfl
      obtain ⟨next, hstep, hplaced, hpieces, hbytes⟩ :=
        loadRecord_eq hrecord (hstands entry List.mem_cons_self)
          (hfields entry List.mem_cons_self) now (by omega)
      obtain ⟨final, hloop, hrecords, hall, htotal'⟩ :=
        ih (fun other hother => hstands other (List.mem_cons_of_mem _ hother))
          (fun other hother => hfields other (List.mem_cons_of_mem _ hother)) next (by omega)
      refine ⟨final, ?_, ?_, ?_, by omega⟩
      · rw [forEach_cons, hstep]
        exact hloop
      · rw [hrecords, hplaced, hpieces, List.length_append, List.append_assoc]
        rfl
      · rw [hall, hpieces, List.append_assoc]
        rfl

theorem countPieces_eq (records : List ArchiveRecord) (count : Nat)
    (h : count + (records.flatMap ArchiveRecord.pieces).length ≤ 0xffffffff) :
    forEach records countPieces count =
      Except.ok (count + (records.flatMap ArchiveRecord.pieces).length) := by
  induction records generalizing count with
  | nil => rfl
  | cons record records ih =>
      rw [List.flatMap_cons, List.length_append] at h ⊢
      have hroom : ¬ record.pieces.length > kSizeMax - count := by
        rw [kSizeMax]
        omega
      have hstep : countPieces record count = Except.ok (count + record.pieces.length) := by
        rw [countPieces, require_of_holds hroom]
        rfl
      rw [forEach_cons, hstep, ok_bind, ih _ (by omega), Nat.add_assoc]

end Load

/-! ### Hashing again -/

section Hashes

variable {store : Store} {entries : List Placed} {contents : List (List UInt8)} {blobs : List Blob}

/-- The loop over the pieces goes through the hashes and the sizes of the chunks. -/
theorem hashPieces_eq (h : List.Forall₂ (Blob.Holds H) blobs contents) {pieces : List Piece}
    {chunks : List (List UInt8)}
    (hpieces : List.Forall₂ (fun piece chunk => contents[piece.blobIndex.toNat]? = some chunk)
      pieces chunks) (completed : UInt64) (bytes : List UInt8) (hash : UInt64)
    (hfits : bytes.length + chunks.flatten.length ≤ completed.toNat) :
    forEach pieces (hashPiece blobs completed) (UInt64.ofNat bytes.length, hash) = Except.ok
      (UInt64.ofNat (bytes ++ chunks.flatten).length, Placed.hashChunks H hash chunks) := by
  have hword := completed.toNat_lt
  induction hpieces generalizing bytes hash with
  | nil =>
      rw [List.flatten_nil, List.append_nil]
      rfl
  | @cons piece chunk pieces chunks hpiece _ ih =>
      rw [List.flatten_cons, List.length_append] at hfits
      obtain ⟨blob, hblob, hholds⟩ := forall₂_getElem? h.flip hpiece
      have hlt := (List.getElem?_eq_some_iff.mp hblob).1
      have hsize := hholds.size
      have hbefore : (UInt64.ofNat bytes.length).toNat = bytes.length := by
        rw [UInt64.toNat_ofNat']
        exact Nat.mod_eq_of_lt (by omega)
      have hle : UInt64.ofNat bytes.length ≤ completed := by
        rw [UInt64.le_iff_toNat_le, hbefore]
        omega
      have hroom : ¬ UInt64.ofNat bytes.length > completed ∧
          ¬ blob.uncompressedBytes > completed - UInt64.ofNat bytes.length := by
        refine ⟨UInt64.not_lt.mpr hle, UInt64.not_lt.mpr ?_⟩
        rw [UInt64.le_iff_toNat_le, UInt64.toNat_sub_of_le _ _ hle, hbefore, hsize]
        omega
      have hword' : blob.uncompressedBytes = UInt64.ofNat chunk.length := by
        rw [← hsize, UInt64.ofNat_toNat]
      have hstep : hashPiece blobs completed piece (UInt64.ofNat bytes.length, hash) = Except.ok
          (UInt64.ofNat (bytes ++ chunk).length,
            appendRecordHash hash (H.hashBytes chunk) (UInt64.ofNat chunk.length)) := by
        rw [hashPiece, require_of_holds hlt, ok_bind, fetch_of_lt hblob, ok_bind,
          require_of_holds hroom, ok_bind, hholds.hash, hword', List.length_append,
          UInt64.ofNat_add]
        rfl
      rw [forEach_cons, hstep, ok_bind,
        ih (bytes ++ chunk) _ (by rw [List.length_append]; omega), List.append_assoc,
        List.flatten_cons]
      rfl

/-- The hash that is computed again is the one that was kept. -/
theorem computeRecordHash_eq (h : List.Forall₂ (Blob.Holds H) blobs contents) {entry : Placed}
    (hstands : entry.Stands H contents) {record : StoredRecord}
    (hmetadata : record.metadata = entry.metadata) :
    computeRecordHash record entry.pieces blobs = Except.ok (entry.recordHash H) := by
  have hcompleted := hstands.completed
  have hflat : entry.chunks.flatten.length = entry.bytes.length := rfl
  have hloop := hashPieces_eq h hstands.pieces entry.metadata.completedBytes []
    (beginRecordHash entry.metadata entry.metadata.completedBytes
      (UInt64.ofNat entry.pieces.length)) (by rw [List.length_nil]; omega)
  have hend : UInt64.ofNat ([] ++ entry.chunks.flatten).length = entry.metadata.completedBytes := by
    rw [List.nil_append, hflat, ← hcompleted, UInt64.ofNat_toNat]
  rw [computeRecordHash, hmetadata]
  have hrun : forEach entry.pieces (hashPiece blobs entry.metadata.completedBytes)
    (0, beginRecordHash entry.metadata entry.metadata.completedBytes
      (UInt64.ofNat entry.pieces.length)) = _ := hloop
  rw [hrun, ok_bind, require_of_holds hend, ok_bind, Placed.recordHash, hstands.pieces.length_eq]
  rfl

/-- The records of a store, of which the hashes are known up to some record. -/
def rehashed (layout : List StoredRecord) (i : Nat) : List StoredRecord :=
  layout.take i ++ (layout.drop i).map unhashed

theorem rehashed_length (layout : List StoredRecord) : rehashed layout layout.length = layout := by
  rw [rehashed, List.take_length, List.drop_length, List.map_nil, List.append_nil]

theorem rehashed_succ {layout : List StoredRecord} {i : Nat} {record : StoredRecord}
    (h : layout[i]? = some record) :
    (rehashed layout i)[i]? = some (unhashed record) ∧
      (rehashed layout i).set i record = rehashed layout (i + 1) := by
  obtain ⟨hlt, hat⟩ := List.getElem?_eq_some_iff.mp h
  have hlen : (layout.take i).length = i := by
    rw [List.length_take]
    omega
  have hsplit : rehashed layout i =
      layout.take i ++ unhashed record :: (layout.drop (i + 1)).map unhashed := by
    rw [rehashed, List.drop_eq_getElem_cons hlt, List.map_cons, hat]
  refine ⟨?_, ?_⟩
  · rw [hsplit, List.getElem?_append_right (by omega), hlen, Nat.sub_self]
    rfl
  · rw [hsplit, List.set_append_right _ _ (by omega), hlen, Nat.sub_self, List.set_cons_zero,
      rehashed, List.take_succ_eq_append_getElem hlt, hat, List.append_assoc]
    rfl

/-- **The hashes of all records are computed again.** -/
theorem computeRecordHashes_eq (hkeeps : store.backend.Keeps H contents)
    (hrecords : store.records.items = (Placed.layout H 0 entries).map unhashed)
    (hpieces : store.pieces.items = entries.flatMap Placed.pieces)
    (hstands : ∀ entry ∈ entries, entry.Stands H contents)
    (hle : store.pieces.items.length ≤ 0xffffffff) :
    ∃ records, (store.computeRecordHashes : Checked ε (Bool × Store)) =
        Except.ok (true, { store with records := records }) ∧
      records.items = Placed.layout H 0 entries := by
  -- the store as it will be shows the entries, and only its pieces are asked for
  have hshows : Shows H { store with records := store.records.replace (Placed.layout H 0 entries) }
      entries contents := ⟨hkeeps, rfl, hpieces, hstands, hle⟩
  have hlen : store.records.items.length = (Placed.layout H 0 entries).length := by
    rw [hrecords, List.length_map]
  have hloop : Ends (forRange store.records.items.length store.rehashRecord store.records)
      (fun records : Vec StoredRecord =>
        records.items = rehashed (Placed.layout H 0 entries) store.records.items.length)
      (fun _ => False) := by
    refine ends_forRange (fun i (records : Vec StoredRecord) =>
      records.items = rehashed (Placed.layout H 0 entries) i) hrecords ?_
    intro i records hi hnow
    rw [hlen, Placed.length_layout] at hi
    have hget : entries[i]? = some entries[i] := List.getElem?_eq_getElem hi
    obtain ⟨record, hplaced⟩ : ∃ record, (Placed.layout H 0 entries)[i]? = some record :=
      ⟨_, Placed.layout_getElem? H hget⟩
    obtain ⟨hunhashed, hset⟩ := rehashed_succ hplaced
    obtain ⟨hown, hmetadata, hhash⟩ := hshows.recordPieces_eq hget hplaced
    have hcomputed := computeRecordHash_eq hkeeps.blobs (hstands _ (List.getElem_mem hi))
      (show (unhashed record).metadata = _ from hmetadata)
    have hfound : store.recordPieces (unhashed record) = entries[i].pieces := hown
    have hagain : { unhashed record with recordHash := entries[i].recordHash H } = record := by
      rw [← hhash]
      rfl
    rw [← hnow] at hunhashed hset
    rw [rehashRecord, fetch_of_lt hunhashed, ok_bind, hfound, hcomputed]
    dsimp only
    rw [hagain, Vec.assign_of_lt (List.getElem?_eq_some_iff.mp hunhashed).1]
    exact hset
  obtain ⟨records, hrun, hfinal⟩ := hloop.returns
  refine ⟨records, ?_, ?_⟩
  · rw [computeRecordHashes, hrun]
    rfl
  · rw [hfinal, hlen, rehashed_length]

end Hashes

/-! ### Building a store from an archive -/

/-- The blobs of an archive go into a backend with room for them. -/
theorem loadBlobs_eq {backend : Backend} {blobs : List Blob}
    {contents : List (List UInt8)} (hsized : backend.index.Sized)
    (hwritable : backend.writable = true) (hroom : blobs.length ≤ backend.index.capacity)
    (hblobs : List.Forall₂ (Blob.Holds H) blobs contents)
    (hfits : encodedLength blobs < 2 ^ 64) :
    ∃ loaded, (backend.loadArchive blobs : Checked ε Backend) = Except.ok loaded ∧
      loaded.Keeps H contents := by
  obtain ⟨hitems, -⟩ := Backend.foldl_append_memory blobs backend.clear.memory
  have hall : (blobs.foldl MemoryBlobs.append backend.clear.memory).blobs.items = blobs := hitems
  obtain ⟨hclear, hempty, hcapacity⟩ := hsized.clear
  obtain ⟨index, hloop, hnow, hsize, -⟩ := Backend.indexBlobs_eq blobs 0 blobs.length hclear
    (by omega) (by omega)
  simp only [Nat.zero_add] at hloop
  refine ⟨{ backend.clear with
      memory := blobs.foldl MemoryBlobs.append backend.clear.memory, index := index }, ?_, ?_⟩
  · rw [Backend.loadArchive, hall]
    have hrun : forRange blobs.length (Backend.indexBlob blobs) backend.clear.index =
      Except.ok index := hloop
    dsimp only
    rw [hrun]
    rfl
  · refine ⟨?_, hnow, ?_, ?_, hwritable⟩
    · show List.Forall₂ _ (blobs.foldl MemoryBlobs.append backend.clear.memory).blobs.items _
      rw [hall]
      exact hblobs
    · show index.size = (blobs.foldl MemoryBlobs.append backend.clear.memory).blobs.items.length
      rw [hall, hsize, hempty, Nat.zero_add]
    · show (blobs.foldl MemoryBlobs.append backend.clear.memory).encodedBytes.toNat =
        encodedLength (blobs.foldl MemoryBlobs.append backend.clear.memory).blobs.items
      rw [hall, Backend.foldl_append_encoded hblobs _ (by
        show (0 : UInt64).toNat + _ < _
        rw [UInt64.toNat_zero]
        omega)]
      exact Nat.zero_add _

/-- What a store shows, and what it says of itself, is also what another one does. -/
structure SameTo (H : ByteHasher) (store other : Store) : Prop where
  records : other.records.items = store.records.items
  payloadHash : other.payloadHash = store.payloadHash
  resolve : ∀ i, other.resolve H i = store.resolve H i

variable {store : Store} {entries : List Placed} {contents : List (List UInt8)}

theorem Shows.sameTo (h : store.Shows H entries contents) {other : Store}
    (h' : other.Shows H entries contents) (hhash : other.payloadHash = store.payloadHash) :
    SameTo H store other := by
  refine ⟨h'.records.trans h.records.symm, hhash, ?_⟩
  intro i
  rcases Nat.lt_or_ge i entries.length with hi | hi
  · have hget : entries[i]? = some entries[i] := List.getElem?_eq_getElem hi
    rw [h.resolve_eq hget, h'.resolve_eq hget]
  · rw [resolve_missing (by rw [h'.records, Placed.length_layout]; exact hi),
      resolve_missing (by rw [h.records, Placed.length_layout]; exact hi)]

section Load

variable {archive : PayloadArchive} {fresh : Store}

/-- A store that was emptied. -/
theorem clear_keeps (h : fresh.Holds H [] []) : fresh.clear.backend.Keeps H [] := by
  obtain ⟨hsized, hempty, -⟩ := h.keeps.sized.clear
  exact ⟨List.Forall₂.nil, hsized, hempty, rfl, h.keeps.writable⟩

/-- An archive without records is loaded as nothing. -/
theorem Published.loadArchive_nil (p : store.Published H [] archive)
    (h : store.Holds H [] contents) (hvalid : validArchive H archive = true)
    (hfresh : fresh.Holds H [] []) :
    ∃ loaded, (fresh.loadArchive H archive : Checked ε (Bool × Store)) = Except.ok (true, loaded) ∧
      loaded.Shows H [] [] ∧ loaded.payloadHash = store.payloadHash := by
  have hnone : archive.records = [] ∧ archive.chunks = [] ∧ archive.payloadHash = 0 := by
    refine ⟨p.records_nil_iff.mpr rfl, ?_, ?_⟩
    · rw [p.chunks, h.blobs_nil]
      rfl
    · rw [p.payloadHash, h.payloadHash_eq]
      rfl
  refine ⟨{ fresh.clear with loadedDiagnostic := archive.diagnostic, loadedDiagnosticActive := true },
    ?_, ⟨clear_keeps hfresh, rfl, rfl, ?_, Nat.zero_le _⟩, ?_⟩
  · rw [loadArchive, if_neg (by rw [hvalid]; exact Bool.noConfusion), if_pos hnone]
    rfl
  · exact fun entry hentry => absurd hentry List.not_mem_nil
  · rw [h.payloadHash_eq]
    rfl

/-- The records of an archive are read as they lay. -/
theorem Published.loadRecords_eq (p : store.Published H entries archive)
    (h : store.Holds H entries contents)
    (hfields : ∀ entry ∈ entries, recordFieldsValid entry.metadata = true) :
    ∃ read, loadRecords archive = Except.ok read ∧
      read.records = (Placed.layout H 0 entries).map unhashed ∧
      read.pieces = entries.flatMap Placed.pieces := by
  have htotal := h.logical_le
  have hword := store.limits.bytes.toNat_lt
  have hpieces := h.pieces_le
  have hcount : (archive.records.flatMap ArchiveRecord.pieces).length =
      store.pieces.items.length := by
    have hmap := congrArg List.length (chunkIds_eq p.records)
    rw [List.length_map, List.length_map] at hmap
    rw [hmap, h.pieces]
  obtain ⟨read, hread, hrecords, hplaces, -⟩ :=
    Store.loadRecords_eq p.records h.stands hfields {} (by
      show (0 : UInt64).toNat + _ < _
      rw [UInt64.toNat_zero]
      omega)
  refine ⟨read, ?_, hrecords, hplaces⟩
  rw [loadRecords, countPieces_eq archive.records 0 (by omega), ok_bind,
    require_of_holds (by omega)]
  exact hread

/-- **An archive is loaded as the store it comes from.** -/
theorem Published.loadArchive_eq (p : store.Published H entries archive)
    (h : store.Holds H entries contents)
    (hfields : ∀ entry ∈ entries, recordFieldsValid entry.metadata = true)
    (hvalid : validArchive H archive = true) (hfresh : fresh.Holds H [] [])
    (hroom : store.backend.blobs.length ≤ fresh.backend.index.capacity)
    (hnone : entries ≠ []) :
    ∃ loaded, (fresh.loadArchive H archive : Checked ε (Bool × Store)) = Except.ok (true, loaded) ∧
      loaded.Shows H entries contents ∧ loaded.payloadHash = store.payloadHash := by
  have htotal := h.logical_le
  have hword := store.limits.bytes.toNat_lt
  have hkept := h.encoded_le
  have hblobs := h.blobs_length_le
  have hle := h.accepted.blobs
  have hfew := h.accepted.pieces
  have hpieces := h.pieces_le
  obtain ⟨bytes, hchunks⟩ := loadChunks_eq h.keeps.blobs [] 0 0 (by rw [List.length_nil]; omega)
    (by rw [UInt64.toNat_zero]; omega)
  rw [List.nil_append, List.length_nil, ← p.chunks] at hchunks
  obtain ⟨read, hlist, hrecords, hplaces⟩ := p.loadRecords_eq h hfields
  obtain ⟨hsized, hempty, hcapacity⟩ := hfresh.keeps.sized.clear
  obtain ⟨backend, hload, hkeeps⟩ := @loadBlobs_eq ε H fresh.clear.backend store.backend.blobs
    contents hsized hfresh.keeps.writable
    (by
      show _ ≤ fresh.backend.index.clear.capacity
      rw [hcapacity]
      exact hroom) h.keeps.blobs (by omega)
  obtain ⟨base, hbase, hheld, hstored, hlaid, hnew⟩ : ∃ base, rebuildRoleIndices
      { fresh.clear with
        loadedDiagnostic := archive.diagnostic
        loadedDiagnosticActive := true
        backend := backend
        records := fresh.clear.records.replace read.records
        pieces := fresh.clear.pieces.replace read.pieces
        logicalBytes := read.logicalBytes } = base ∧ base.backend = backend ∧
      base.records.items = read.records ∧ base.pieces.items = read.pieces ∧
      base.loadedArchive = false := ⟨_, rfl, rfl, rfl, rfl, rfl⟩
  rw [← hheld] at hkeeps
  rw [hrecords] at hstored
  rw [hplaces] at hlaid
  have hshort : base.pieces.items.length ≤ 0xffffffff := by
    rw [hlaid]
    exact h.pieces ▸ hpieces
  obtain ⟨records, hrehash, hhashed⟩ := @computeRecordHashes_eq ε H base entries contents hkeeps
    hstored hlaid h.stands hshort
  have hshows : Shows H { base with records := records } entries contents :=
    ⟨hkeeps, hhashed, hlaid, h.stands, hshort⟩
  have hagain : ({ base with records := records } : Store).payloadHash = store.payloadHash :=
    (hshows.payloadHash_eq hnew).trans h.payloadHash_eq.symm
  refine ⟨{ base with
      records := records, loadedPayloadHash := archive.payloadHash, loadedArchive := true }, ?_,
    ⟨hkeeps, hhashed, hlaid, h.stands, hshort⟩, ?_⟩
  · rw [loadArchive, if_neg (by rw [hvalid]; exact Bool.noConfusion)]
    dsimp only
    rw [if_neg (fun hno => hnone (p.records_nil_iff.mp hno.1)), loadChunks, hchunks, hlist]
    dsimp only
    rw [hload, ok_bind, hbase, hrehash, ok_bind]
    dsimp only
    rw [hagain, p.payloadHash, beq_self_eq_true]
    rfl
  · have hsome : records.items ≠ [] := by
      rw [hhashed, ← List.length_pos_iff, Placed.length_layout, List.length_pos_iff]
      exact hnone
    rw [Store.payloadHash, if_neg hsome, ← p.payloadHash]
    rfl

/-- **A store is built again from its archive.** -/
theorem Holds.build_archive (h : store.Holds H entries contents)
    (hfields : ∀ entry ∈ entries, recordFieldsValid entry.metadata = true)
    (hhash : entries ≠ [] → store.payloadHash ≠ 0) (adjacent : List ArchiveChunk → Bool)
    {storage : MemoryStorage} (hstorage : store.logicalBytes ≤ storage.maxBytes) :
    ∃ rebuilt, build H (store.archive adjacent).1 storage = Except.ok rebuilt ∧
      SameTo H store rebuilt := by
  have p := h.published adjacent
  have hvalid := p.valid h hfields hhash
  obtain ⟨limits, hlimits, hlisted⟩ := p.limits_eq h
  have hbytes : limits.bytes = store.logicalBytes :=
    UInt64.toNat_inj.mp (hlisted.bytes.trans h.logical.symm)
  have hfits : ¬ limits.bytes > storage.maxBytes := by
    rw [hbytes]
    exact UInt64.not_lt.mpr hstorage
  obtain ⟨fresh, hmake⟩ := hlisted.make_eq h rfl hfits
  obtain ⟨hfresh, hsame⟩ := @holds_make H _ _ _ hmake
  have hroom : store.backend.blobs.length ≤ fresh.backend.index.capacity := by
    rw [hfresh.blobs_capacity', hsame, hlisted.blobs]
  have hload : ∃ loaded, (fresh.loadArchive H (store.archive adjacent).1 :
      Checked ReplayCode (Bool × Store)) = Except.ok (true, loaded) ∧ SameTo H store loaded := by
    by_cases hnone : entries = []
    · subst hnone
      have hempty : contents = [] := by
        rw [← List.length_eq_zero_iff, ← h.keeps.length_eq, h.blobs_nil]
        rfl
      subst hempty
      obtain ⟨loaded, hrun, hshows, hagain⟩ := p.loadArchive_nil h hvalid hfresh
      exact ⟨loaded, hrun, h.toShows.sameTo hshows hagain⟩
    · obtain ⟨loaded, hrun, hshows, hagain⟩ :=
        p.loadArchive_eq h hfields hvalid hfresh hroom hnone
      exact ⟨loaded, hrun, h.toShows.sameTo hshows hagain⟩
  obtain ⟨loaded, hrun, hsameTo⟩ := hload
  refine ⟨loaded, ?_, hsameTo⟩
  rw [build, hlimits]
  dsimp only
  rw [if_neg hfits, hmake]
  dsimp only
  rw [hrun, ok_bind, require_of_holds rfl]
  rfl

end Load

end Store

/-! ### Runs -/

namespace AppendCall

/-- What the check of an archive asks of the record of a call. -/
def publishable : AppendCall H → Bool
  | .capture _ kind _ => isPayloadKind kind
  | .adopt _ kind _ _ _ => isPayloadKind kind
  | .input _ _ _ sourceRange _ _ _ =>
      sourceRange.hash != 0 && checkedAdd sourceRange.eventOffset sourceRange.eventCount &&
        checkedAdd sourceRange.payloadOffset sourceRange.payloadCount

/-- A call that appends sees to the rest. -/
theorem recordFieldsValid_record {call : AppendCall H} (hguard : call.guarded = true)
    (hpublishable : call.publishable = true) : recordFieldsValid call.record.metadata = true := by
  cases call with
  | capture eventSequence kind payload =>
      have hkind : isPayloadKind kind = true := hpublishable
      simp only [record, recordFieldsValid, hkind, beq_self_eq_true, Bool.and_self]
  | adopt eventSequence kind bytes payload memory =>
      have hkind : isPayloadKind kind = true := hpublishable
      simp only [record, recordFieldsValid, hkind, beq_self_eq_true, Bool.and_self]
  | input source schema sequence sourceRange bytes payload memory =>
      simp only [publishable, Bool.and_eq_true] at hpublishable
      simp only [guarded, Bool.and_eq_true] at hguard
      simp only [record, recordFieldsValid, hpublishable, hguard, beq_self_eq_true]
      rfl

end AppendCall

/-- The records that calls have added to a store. -/
theorem Store.Holds.performAll_holds {store : Store} {entries : List Placed}
    {contents : List (List UInt8)} (h : store.Holds H entries contents)
    (calls : List (AppendCall H)) :
    ∃ answers final entries' contents', (performAll store calls : Checked ε (List Bool × Store)) =
        Except.ok (answers, final) ∧ final.Holds H entries' contents' ∧
      ∀ entry ∈ entries', entry ∈ entries ∨
        ∃ call ∈ calls, call.guarded = true ∧ entry.metadata = call.record.metadata := by
  induction calls generalizing store entries contents with
  | nil => exact ⟨[], store, entries, contents, rfl, h, fun entry hentry => Or.inl hentry⟩
  | cons call calls ih =>
      obtain ⟨answer, next, hrun, -, hcase⟩ := @Store.Holds.perform_eq ε H _ _ _ h call
      have hnext : ∃ entries' contents', next.Holds H entries' contents' ∧
          ∀ entry ∈ entries', entry ∈ entries ∨
            call.guarded = true ∧ entry.metadata = call.record.metadata := by
        rcases hcase with ⟨-, hall, pieces, more, hadded⟩ | ⟨-, -, hsame, -⟩
        · refine ⟨_, _, hadded, ?_⟩
          intro entry hentry
          rw [AppendCall.succeeds, Bool.and_eq_true, call.wellFormed_iff] at hall
          rcases List.mem_append.mp hentry with hold | hnew
          · exact Or.inl hold
          · rw [List.mem_singleton.mp hnew]
            exact Or.inr ⟨hall.1.1, rfl⟩
        · exact ⟨entries, contents, hsame, fun entry hentry => Or.inl hentry⟩
      obtain ⟨entries', contents', hholds, hfrom⟩ := hnext
      obtain ⟨answers, final, entries'', contents'', hrest, hfinal, hfrom'⟩ := ih hholds
      refine ⟨answer :: answers, final, entries'', contents'', ?_, hfinal, ?_⟩
      · rw [performAll, hrun, ok_bind]
        dsimp only
        rw [hrest, ok_bind]
        rfl
      · intro entry hentry
        rcases hfrom' entry hentry with hmem | ⟨other, hother, hrecord⟩
        · rcases hfrom entry hmem with hold | hnew
          · exact Or.inl hold
          · exact Or.inr ⟨call, List.mem_cons_self, hnew⟩
        · exact Or.inr ⟨other, List.mem_cons_of_mem _ hother, hrecord⟩

theorem oneMemory_read (H : ByteHasher) (span : Span) :
    OneMemory span (Capture.read H span).span := fun _ _ => rfl

/-- An input of one byte that can be published. -/
def appendSourced : AppendCall (ByteHasher.ofHash ByteHasher.xxh3Short) :=
  .input 1 1 0 { hash := 1 } oneByte (Capture.read _ oneByte) (oneMemory_read _ _)

/-- The hash over a store that holds the one byte is not zero. -/
theorem payloadHash_appendSourced {store : Store} {pieces : List Piece}
    {contents : List (List UInt8)}
    (h : store.Holds (ByteHasher.ofHash ByteHasher.xxh3Short)
      [⟨appendSourced.record.metadata, pieces, cut [7] 1⟩] contents) : store.payloadHash ≠ 0 := by
  rw [h.payloadHash_eq]
  show archiveHash [Placed.hashChunks _ (beginRecordHash appendSourced.record.metadata 1 1)
    [[7]]] ≠ 0
  decide

end RunD
