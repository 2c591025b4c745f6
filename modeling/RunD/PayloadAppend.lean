/-
What a store holds, and what appending to it does.

A store holds a list of entries: a record, its pieces, and the chunks the
pieces stand for.  `Store.Shows` says how the entries lie in the vectors of
the store, `Store.Holds` adds the accounts of a store that is written to.
Appending either adds an entry with the bytes it was given, or changes nothing
but scratch space; the latter happens only when the call is improper, the
limits on records or bytes are reached, or there is no room for the chunks
(`Store.Holds.appendRecord_eq`).
-/
import RunD.PayloadChunks

namespace RunD

variable {ε : Type}

/-! ### Entries -/

/-- A record, its pieces, and what these stand for. -/
structure Placed where
  metadata : PayloadRecord
  pieces : List Piece
  chunks : List (List UInt8)

namespace Placed

def bytes (entry : Placed) : List UInt8 := entry.chunks.flatten

/-- The hash of a record over the hashes and the sizes of its chunks. -/
def hashChunks (H : ByteHasher) (hash : UInt64) (chunks : List (List UInt8)) : UInt64 :=
  chunks.foldl (fun hash chunk =>
    appendRecordHash hash (H.hashBytes chunk) (UInt64.ofNat chunk.length)) hash

def recordHash (H : ByteHasher) (entry : Placed) : UInt64 :=
  hashChunks H (beginRecordHash entry.metadata entry.metadata.completedBytes
    (UInt64.ofNat entry.chunks.length)) entry.chunks

/-- The pieces of an entry stand for its chunks among these contents. -/
structure Stands (H : ByteHasher) (contents : List (List UInt8)) (entry : Placed) : Prop where
  pieces : List.Forall₂ (fun piece chunk => contents[piece.blobIndex.toNat]? = some chunk)
    entry.pieces entry.chunks
  completed : entry.metadata.completedBytes.toNat = entry.bytes.length
  hash : entry.metadata.payloadHash = H.hashBytes entry.bytes
  count : entry.chunks.length = chunkCount entry.bytes.length

/-- More contents at the end do no harm. -/
theorem Stands.append {H : ByteHasher} {contents : List (List UInt8)} {entry : Placed}
    (h : entry.Stands H contents) (more : List (List UInt8)) :
    entry.Stands H (contents ++ more) := by
  refine ⟨h.pieces.imp ?_, h.completed, h.hash, h.count⟩
  intro piece chunk hchunk
  rw [List.getElem?_append_left (List.getElem?_eq_some_iff.mp hchunk).1]
  exact hchunk

/-- The records of entries whose pieces lie one after the other. -/
def layout (H : ByteHasher) : Nat → List Placed → List StoredRecord
  | _, [] => []
  | offset, entry :: entries =>
      { metadata := entry.metadata
        recordHash := entry.recordHash H
        pieceOffset := UInt32.ofNat offset
        pieceCount := UInt32.ofNat entry.pieces.length } ::
        layout H (offset + entry.pieces.length) entries

theorem layout_append (H : ByteHasher) (offset : Nat) (xs ys : List Placed) :
    layout H offset (xs ++ ys) =
      layout H offset xs ++ layout H (offset + (xs.flatMap Placed.pieces).length) ys := by
  induction xs generalizing offset with
  | nil => rfl
  | cons entry xs ih =>
      rw [List.cons_append, layout, ih, layout, List.flatMap_cons, List.length_append,
        Nat.add_assoc, List.cons_append]

@[simp] theorem length_layout (H : ByteHasher) (offset : Nat) (entries : List Placed) :
    (layout H offset entries).length = entries.length := by
  induction entries generalizing offset with
  | nil => rfl
  | cons entry entries ih => rw [layout, List.length_cons, ih, List.length_cons]

/-- Where the record of an entry stands, and where its pieces begin. -/
theorem layout_getElem? (H : ByteHasher) {offset i : Nat} {entries : List Placed} {entry : Placed}
    (hget : entries[i]? = some entry) :
    (layout H offset entries)[i]? = some
      { metadata := entry.metadata
        recordHash := entry.recordHash H
        pieceOffset := UInt32.ofNat (offset + ((entries.take i).flatMap Placed.pieces).length)
        pieceCount := UInt32.ofNat entry.pieces.length } := by
  induction entries generalizing offset i with
  | nil => cases hget
  | cons first entries ih =>
      cases i with
      | zero =>
          cases hget
          rfl
      | succ i =>
          rw [List.getElem?_cons_succ] at hget
          rw [layout, List.getElem?_cons_succ, ih hget, List.take_succ_cons, List.flatMap_cons,
            List.length_append, Nat.add_assoc]

/-- How many entries have a role. -/
def countRole (role : Role) (entries : List Placed) : Nat :=
  entries.countP (·.metadata.role = role)

/-- The length of all payloads. -/
def total (entries : List Placed) : Nat := (entries.map fun entry => entry.bytes.length).sum

theorem total_concat (entries : List Placed) (entry : Placed) :
    total (entries ++ [entry]) = total entries + entry.bytes.length := by
  rw [total, List.map_append, List.sum_append]
  simp [total]

theorem countRole_concat (role : Role) (entries : List Placed) (entry : Placed) :
    countRole role (entries ++ [entry]) =
      countRole role entries + if entry.metadata.role = role then 1 else 0 := by
  rw [countRole, List.countP_append, List.countP_singleton]
  simp [countRole]

end Placed

/-! ### What a store holds -/

/-- The limits that the constructor accepts. -/
structure Limits.Accepted (limits : Limits) : Prop where
  records : limits.hosts + limits.inputs ≤ 0xffffffff
  pieces : limits.pieces ≤ 0xffffffff
  blobs : limits.blobs ≤ limits.pieces
  staged : limits.staged ≤ limits.pieces

namespace Store

/-- The vectors of the store hold these entries. -/
structure Shows (H : ByteHasher) (store : Store) (entries : List Placed)
    (contents : List (List UInt8)) : Prop where
  keeps : store.backend.Keeps H contents
  records : store.records.items = Placed.layout H 0 entries
  pieces : store.pieces.items = entries.flatMap Placed.pieces
  stands : ∀ entry ∈ entries, entry.Stands H contents
  pieces_le : store.pieces.items.length ≤ 0xffffffff

/-- The scratch space is as it was prepared. -/
structure Prepared (store : Store) : Prop where
  stagedIndex : store.stagedIndex.Sized
  index_capacity : store.stagedIndex.capacity = store.limits.staged
  pieces_capacity : store.pieceScratch.capacity = store.limits.staged
  blobs_capacity : store.stagedBlobs.capacity = store.limits.staged

/-- The accounts of the store are in order, and it was not loaded. -/
structure Holds (H : ByteHasher) (store : Store) (entries : List Placed)
    (contents : List (List UInt8)) : Prop extends Shows H store entries contents, Prepared store where
  accepted : store.limits.Accepted
  referenced : ∀ i < contents.length, ∃ piece ∈ store.pieces.items, piece.blobIndex.toNat = i
  encoded_le : encodedLength store.backend.blobs ≤ Placed.total entries
  logical : store.logicalBytes.toNat = Placed.total entries
  logical_le : Placed.total entries ≤ store.limits.bytes.toNat
  roles : ∀ role, (store.roleIndices role).items.length = Placed.countRole role entries
  roles_le : ∀ role, Placed.countRole role entries ≤ roleLimit store.limits role
  capacity : store.pieces.capacity = store.limits.pieces
  blobs_capacity' : store.backend.index.capacity = store.limits.blobs
  fresh : store.loadedArchive = false ∧ store.loadedDiagnosticActive = false
  unpublished : store.publication = [] ∧ store.publicationChunks = 0
  growths : entries = [] → store.growths = 0 ∧ store.backend.memory.growths = 0

/-- Nothing that a reader of the store sees has changed. -/
structure Unchanged (before after : Store) : Prop where
  records : after.records.items = before.records.items
  pieces : after.pieces.items = before.pieces.items
  blobs : after.backend.blobs = before.backend.blobs
  payloadHash : after.payloadHash = before.payloadHash
  logicalBytes : after.logicalBytes = before.logicalBytes

theorem Unchanged.refl (store : Store) : store.Unchanged store := ⟨rfl, rfl, rfl, rfl, rfl⟩

variable {H : ByteHasher} {store : Store} {entries : List Placed} {contents : List (List UInt8)}

theorem Holds.blobs_length_le (h : store.Holds H entries contents) :
    store.backend.blobs.length ≤ store.limits.blobs := by
  have hsize := h.keeps.sized.size_le
  rwa [h.keeps.indexed, h.blobs_capacity'] at hsize

/-- There is room for the chunks of a payload of this size. -/
structure Room (store : Store) (size : Nat) : Prop where
  staged : chunkCount size ≤ store.limits.staged
  pieces : store.pieces.items.length + chunkCount size ≤ store.limits.pieces
  blobs : store.backend.blobs.length + chunkCount size ≤ store.limits.blobs

/-- The record, the capture and the bytes handed over belong together. -/
structure Proper (record : StoredRecord) (payload : Capture H) (adopted : Span) : Prop where
  valid : payload.valid = true
  completed : record.metadata.completedBytes.toNat = payload.span.bytes.length
  hash : record.metadata.payloadHash = payload.hash
  adopted : adopted.bytes = [] ∨
    adopted.data = payload.span.data ∧ adopted.bytes.length = payload.span.bytes.length

/-- The limits on records and bytes leave room for another record. -/
def Admits (limits : Limits) (entries : List Placed) (role : Role) (size : Nat) : Prop :=
  Placed.countRole role entries < roleLimit limits role ∧
    Placed.total entries + size ≤ limits.bytes.toNat

/-- An appending that changes nothing, and why it does not. -/
structure Refused (H : ByteHasher) (store : Store) (entries : List Placed)
    (contents : List (List UInt8)) (record : StoredRecord) (payload : Capture H) (adopted : Span)
    (result : Bool × Store) : Prop where
  answer : result.1 = false
  unchanged : store.Unchanged result.2
  holds : result.2.Holds H entries contents
  limits : result.2.limits = store.limits
  reason : ¬ (Proper record payload adopted ∧
    Admits store.limits entries record.metadata.role payload.span.bytes.length ∧
    store.Room payload.span.bytes.length)

/-- An appending that adds an entry with the bytes of the payload. -/
structure Appended (H : ByteHasher) (store : Store) (entries : List Placed)
    (contents : List (List UInt8)) (record : StoredRecord) (payload : Capture H) (adopted : Span)
    (result : Bool × Store) : Prop where
  answer : result.1 = true
  proper : Proper record payload adopted
  admits : Admits store.limits entries record.metadata.role payload.span.bytes.length
  limits : result.2.limits = store.limits
  entry : ∃ pieces more, result.2.Holds H (entries ++
    [⟨record.metadata, pieces,
      cut payload.span.bytes (chunkCount payload.span.bytes.length)⟩]) (contents ++ more)

/-! ### Staging the chunks -/

/-- What the loop over the chunks has staged after `i` turns, for these contents. -/
structure StagedAs (H : ByteHasher) (store : Store) (contents : List (List UInt8)) (hash : UInt64)
    (bytes : List UInt8) (i : Nat) (now : Staging) (more : List (List UInt8)) : Prop where
  blobs : List.Forall₂ (Blob.Holds H) now.stagedBlobs.items more
  pieces : List.Forall₂
    (fun piece chunk => (contents ++ more)[piece.blobIndex.toNat]? = some chunk)
    now.pieceScratch.items (cut bytes i)
  referenced : ∀ j < more.length, ∃ piece ∈ now.pieceScratch.items,
    piece.blobIndex.toNat = contents.length + j
  few : now.stagedBlobs.items.length ≤ i
  word : contents.length + now.stagedBlobs.items.length ≤ 2 ^ 32
  recordHash : now.recordHash = Placed.hashChunks H hash (cut bytes i)
  encoded : now.encodedBytes.toNat = encodedLength now.stagedBlobs.items
  encoded_le : encodedLength now.stagedBlobs.items ≤ (cut bytes i).flatten.length
  indexed : now.stagedIndex.size = now.stagedBlobs.items.length
  prepared : (store.withScratch now).Prepared

/-- The state of the loop after `i` turns. -/
def Staged (H : ByteHasher) (store : Store) (contents : List (List UInt8)) (hash : UInt64)
    (bytes : List UInt8) (i : Nat) (now : Staging) : Prop :=
  ∃ more, StagedAs H store contents hash bytes i now more

/-- Scratch space does not matter to what a store holds. -/
theorem Holds.withScratch (h : store.Holds H entries contents) {now : Staging}
    (hprepared : (store.withScratch now).Prepared) :
    (store.withScratch now).Holds H entries contents :=
  { h with toPrepared := hprepared }

/-- The hash of the record is not scratch space. -/
theorem Prepared.rehash {now : Staging} (h : (store.withScratch now).Prepared) (hash : UInt64) :
    (store.withScratch { now with recordHash := hash }).Prepared := h

theorem Unchanged.withScratch (now : Staging) : store.Unchanged (store.withScratch now) :=
  ⟨rfl, rfl, rfl, rfl, rfl⟩

/-- A vector with room to spare does not grow. -/
theorem pushBack_capacity {α : Type} {v : Vec α} {a : α} (h : v.items.length < v.capacity) :
    (v.pushBack a).capacity = v.capacity := by
  show max v.capacity (v.items ++ [a]).length = v.capacity
  rw [List.length_append, List.length_singleton]
  omega

theorem holds_makeBlob {adopted bytes : List UInt8} (hadopted : adopted = [] ∨ adopted = bytes)
    {i : Nat} (hi : i < chunkCount bytes.length) :
    (makeBlob adopted (i * kChunkBytes) (chunkAt bytes i) (H.hashBytes (chunkAt bytes i))).Holds H
      (chunkAt bytes i) := by
  have hpos := chunkAt_pos hi
  have hle := length_chunkAt_le bytes i
  rw [makeBlob]
  split_ifs with hempty
  · exact holds_encodeBlob H hpos hle
  · obtain rfl := hadopted.resolve_left hempty
    have hslice : (adopted.drop (i * kChunkBytes)).take (chunkAt adopted i).length =
        chunkAt adopted i := by
      rw [length_chunkAt, chunkAt]
    rw [hslice]
    exact holds_raw H hpos hle

section Staging

variable {bytes adopted : List UInt8} {hash payloadHash : UInt64} {E : Bool × Store → Prop}
  {i : Nat} {now : Staging}

/-- The hash a chunk is looked up by is the hash of the chunk. -/
theorem chunkHash_eq (hpayload : payloadHash = H.hashBytes bytes)
    (hi : i < chunkCount bytes.length) :
    (if chunkCount bytes.length = 1 then payloadHash else H.hashBytes (chunkAt bytes i)) =
      H.hashBytes (chunkAt bytes i) := by
  split_ifs with hone
  · obtain rfl : i = 0 := by omega
    rw [hpayload, chunkAt_single hone]
  · rfl

theorem hashChunks_succ (H : ByteHasher) (hash : UInt64) (bytes : List UInt8) (i : Nat) :
    Placed.hashChunks H hash (cut bytes (i + 1)) =
      appendRecordHash (Placed.hashChunks H hash (cut bytes i)) (H.hashBytes (chunkAt bytes i))
        (UInt64.ofNat (chunkAt bytes i).length) := by
  rw [Placed.hashChunks, cut_succ, List.foldl_append]
  rfl

/-- A piece that stands for the chunk is enough. -/
theorem StagedAs.reuse {more : List (List UInt8)}
    (h : StagedAs H store contents hash bytes i now more)
    (hroom : i < store.limits.staged) {piece : Piece}
    (hpiece : (contents ++ more)[piece.blobIndex.toNat]? = some (chunkAt bytes i)) :
    Staged H store contents hash bytes (i + 1)
      { now with
        recordHash := appendRecordHash now.recordHash (H.hashBytes (chunkAt bytes i))
          (UInt64.ofNat (chunkAt bytes i).length)
        pieceScratch := now.pieceScratch.pushBack piece } := by
  have hlen : now.pieceScratch.items.length = i := by rw [h.pieces.length_eq, length_cut]
  have hcapacity := h.prepared.pieces_capacity
  refine ⟨more, h.blobs, ?_, ?_, ?_, h.word, ?_, h.encoded, ?_, h.indexed, ?_⟩
  · rw [cut_succ]
    exact forall₂_concat h.pieces hpiece
  · intro j hj
    obtain ⟨other, hmem, hindex⟩ := h.referenced j hj
    exact ⟨other, List.mem_append_left _ hmem, hindex⟩
  · exact Nat.le_succ_of_le h.few
  · rw [hashChunks_succ, ← h.recordHash]
  · refine Nat.le_trans h.encoded_le ?_
    rw [cut_succ, List.flatten_append, List.length_append]
    exact Nat.le_add_right _ _
  · refine ⟨h.prepared.stagedIndex, h.prepared.index_capacity, ?_, h.prepared.blobs_capacity⟩
    exact (pushBack_capacity (by rw [hlen]; exact hcapacity ▸ hroom)).trans hcapacity

/-- A new blob stands for the chunk. -/
theorem StagedAs.keep {more : List (List UInt8)}
    (h : StagedAs H store contents hash bytes i now more)
    (hroom : i < store.limits.staged)
    (hword : contents.length + now.stagedBlobs.items.length < 2 ^ 32) {blob : Blob}
    (hblob : blob.Holds H (chunkAt bytes i))
    (hencoded : now.encodedBytes.toNat + blob.encodedBytes.toNat < 2 ^ 64)
    {index : PayloadIndex} (hindex : index.Sized)
    (hsize : index.size = now.stagedIndex.size + 1)
    (hcapacity : index.capacity = now.stagedIndex.capacity) :
    Staged H store contents hash bytes (i + 1)
      { recordHash := appendRecordHash now.recordHash (H.hashBytes (chunkAt bytes i))
          (UInt64.ofNat (chunkAt bytes i).length)
        encodedBytes := now.encodedBytes + blob.encodedBytes
        pieceScratch := now.pieceScratch.pushBack
          ⟨UInt32.ofNat (contents.length + now.stagedBlobs.items.length)⟩
        stagedBlobs := now.stagedBlobs.pushBack blob
        stagedIndex := index } := by
  have hlen : now.pieceScratch.items.length = i := by rw [h.pieces.length_eq, length_cut]
  have hpieces := h.prepared.pieces_capacity
  have hblobs := h.prepared.blobs_capacity
  have hstaged := h.blobs.length_eq
  have hfew := h.few
  have hplace : (UInt32.ofNat (contents.length + now.stagedBlobs.items.length)).toNat =
      contents.length + more.length := by
    rw [UInt32.toNat_ofNat', Nat.mod_eq_of_lt hword, hstaged]
  refine ⟨more ++ [chunkAt bytes i], forall₂_concat h.blobs hblob, ?_, ?_, ?_, ?_, ?_, ?_, ?_, ?_, ?_⟩
  · rw [cut_succ]
    refine forall₂_concat (h.pieces.imp ?_) ?_
    · intro piece chunk hchunk
      rw [← List.append_assoc, List.getElem?_append_left (List.getElem?_eq_some_iff.mp hchunk).1]
      exact hchunk
    · dsimp only
      rw [hplace, ← List.append_assoc, ← List.length_append, List.getElem?_concat_length]
  · intro j hj
    rw [List.length_append, List.length_singleton] at hj
    rcases Nat.lt_or_ge j more.length with hold | hnew
    · obtain ⟨piece, hmem, hat⟩ := h.referenced j hold
      exact ⟨piece, List.mem_append_left _ hmem, hat⟩
    · refine ⟨_, List.mem_append_right _ (List.mem_singleton_self _), ?_⟩
      rw [hplace]
      omega
  · show (now.stagedBlobs.items ++ [blob]).length ≤ i + 1
    rw [List.length_append, List.length_singleton]
    omega
  · show contents.length + (now.stagedBlobs.items ++ [blob]).length ≤ 2 ^ 32
    rw [List.length_append, List.length_singleton]
    omega
  · rw [hashChunks_succ, ← h.recordHash]
  · show (now.encodedBytes + blob.encodedBytes).toNat =
      encodedLength (now.stagedBlobs.items ++ [blob])
    rw [UInt64.toNat_add, Nat.mod_eq_of_lt hencoded, encodedLength_append, h.encoded,
      hblob.encoded_size]
    rfl
  · show encodedLength (now.stagedBlobs.items ++ [blob]) ≤ _
    have hshort := hblob.shorter
    have hle := h.encoded_le
    rw [encodedLength_append, cut_succ, List.flatten_append, List.length_append]
    simp only [encodedLength, List.map_cons, List.map_nil, List.sum_cons, List.sum_nil,
      List.flatten_cons, List.flatten_nil, List.append_nil] at hle ⊢
    omega
  · show index.size = (now.stagedBlobs.items ++ [blob]).length
    rw [hsize, h.indexed, List.length_append, List.length_singleton]
  · refine ⟨hindex, hcapacity.trans h.prepared.index_capacity, ?_, ?_⟩
    · exact (pushBack_capacity (by rw [hlen]; exact hpieces ▸ hroom)).trans hpieces
    · exact (pushBack_capacity (by
        show now.stagedBlobs.items.length < now.stagedBlobs.capacity
        have : now.stagedBlobs.capacity = store.limits.staged := hblobs
        omega)).trans hblobs

/-- **One turn of the loop over the chunks** stages a piece for the chunk; it leaves only when the
blobs are too many for their indices. -/
theorem Holds.ends_stageChunk (h : store.Holds H entries contents)
    (hpayload : payloadHash = H.hashBytes bytes) (hadopted : adopted = [] ∨ adopted = bytes)
    (hi : i < chunkCount bytes.length) (hstaged : chunkCount bytes.length ≤ store.limits.staged)
    (hbytes : bytes.length < 2 ^ 64)
    (hnow : Staged H store contents hash bytes i now)
    (hE : ¬ store.Room bytes.length → ∀ now, (store.withScratch now).Prepared →
      E (false, store.withScratch now)) :
    Ends (stageChunk H store payloadHash bytes adopted i now)
      (Staged H store contents hash bytes (i + 1)) E := by
  obtain ⟨more, hnow⟩ := hnow
  have hbase := h.keeps.length_eq
  have hroom : i < store.limits.staged := by omega
  rw [stageChunk]
  dsimp only
  rw [show (bytes.drop (i * kChunkBytes)).take (min kChunkBytes (bytes.length - i * kChunkBytes)) =
    chunkAt bytes i from rfl, chunkHash_eq hpayload hi]
  refine Ends.bind (h.keeps.ends_find _ _) ?_
  rintro (- | existing) hexisting
  · refine Ends.bind (hnow.prepared.stagedIndex.ends_find _ _) ?_
    rintro (- | staged) hfound
    · -- the chunk is new
      have hlt : now.stagedBlobs.items.length < now.stagedBlobs.capacity := by
        have hcapacity : now.stagedBlobs.capacity = store.limits.staged := hnow.prepared.blobs_capacity
        have hfew := hnow.few
        omega
      refine Ends.require_bind ?_ ?_
      · intro hno
        refine hE ?_ _ (hnow.prepared.rehash _)
        intro hspace
        have hblobs := hspace.blobs
        have haccepted := h.accepted
        have hle := haccepted.blobs
        have hpieces := haccepted.pieces
        have hfew := hnow.few
        exact hno ⟨by omega, by omega⟩
      intro hword
      have hblob := holds_makeBlob (H := H) hadopted hi
      have hshort := hblob.shorter
      have hencoded : now.encodedBytes.toNat + (makeBlob adopted (i * kChunkBytes)
          (chunkAt bytes i) (H.hashBytes (chunkAt bytes i))).encodedBytes.toNat < 2 ^ 64 := by
        have hle := hnow.encoded_le
        rw [hnow.encoded, hblob.encoded_size]
        have hcut : (cut bytes (i + 1)).flatten.length ≤ bytes.length := by
          rw [flatten_cut]
          exact List.length_take_le' _ _
        rw [cut_succ, List.flatten_append, List.length_append] at hcut
        simp only [List.flatten_cons, List.flatten_nil, List.append_nil] at hcut
        omega
      refine Ends.require_bind (fun hno => absurd (checkedAdd_iff.mpr hencoded) hno) ?_
      intro _
      obtain ⟨index, hinsert, hsized, hsize, hcapacity⟩ :=
        @PayloadIndex.Sized.insert_eq (Bool × Store) _ hnow.prepared.stagedIndex (by
          have hcapacity : now.stagedIndex.capacity = store.limits.staged :=
            hnow.prepared.index_capacity
          have hindexed := hnow.indexed
          have hfew := hnow.few
          show now.stagedIndex.size < now.stagedIndex.capacity
          omega) (H.hashBytes (chunkAt bytes i)) (UInt32.ofNat now.stagedBlobs.items.length)
      have hinsert' : (now.stagedIndex.insert (H.hashBytes (chunkAt bytes i))
          (UInt32.ofNat now.stagedBlobs.items.length) : Checked (Bool × Store) _) =
          Except.ok (true, index) := hinsert
      rw [hinsert', ok_bind]
      refine Ends.require_bind (fun hno => absurd rfl hno) ?_
      intro _
      refine ends_pure ?_
      have hkept := hnow.keep hroom (by rw [← hbase]; omega) hblob hencoded hsized hsize hcapacity
      rw [← hbase] at hkept
      exact hkept
    · -- it came earlier in this payload
      have haccepts := hfound staged rfl
      refine ends_pure (hnow.reuse hroom ?_)
      cases hblob : now.stagedBlobs.items[staged.toNat]? with
      | none =>
          rw [hblob] at haccepts
          cases haccepts
      | some blob =>
          rw [hblob] at haccepts
          obtain ⟨content, hcontent, hholds⟩ := forall₂_getElem? hnow.blobs hblob
          have hlt := (List.getElem?_eq_some_iff.mp hblob).1
          have hword := hnow.word
          have hplace : (UInt32.ofNat (store.backend.blobs.length + staged.toNat)).toNat =
              contents.length + staged.toNat := by
            rw [UInt32.toNat_ofNat', hbase]
            exact Nat.mod_eq_of_lt (by omega)
          dsimp only
          rw [hplace, List.getElem?_append_right (Nat.le_add_right _ _), Nat.add_sub_cancel_left,
            hcontent, hholds.eq_of_matches haccepts]
  · -- it is kept already
    have hcontent := hexisting existing rfl
    refine ends_pure (hnow.reuse hroom ?_)
    rw [List.getElem?_append_left (List.getElem?_eq_some_iff.mp hcontent).1]
    exact hcontent

/-- The loop over the chunks. -/
theorem Holds.ends_stageChunks (h : store.Holds H entries contents)
    (hpayload : payloadHash = H.hashBytes bytes) (hadopted : adopted = [] ∨ adopted = bytes)
    (hstaged : chunkCount bytes.length ≤ store.limits.staged) (hbytes : bytes.length < 2 ^ 64)
    (hE : ¬ store.Room bytes.length → ∀ now, (store.withScratch now).Prepared →
      E (false, store.withScratch now)) (hash : UInt64) :
    Ends (forRange (chunkCount bytes.length) (stageChunk H store payloadHash bytes adopted)
        { pieceScratch := store.pieceScratch.clear
          stagedBlobs := store.stagedBlobs.clear
          stagedIndex := store.stagedIndex.clear
          recordHash := hash
          encodedBytes := 0 })
      (Staged H store contents hash bytes (chunkCount bytes.length)) E := by
  obtain ⟨hsized, hsize, hcapacity⟩ := h.stagedIndex.clear
  have hblobs := h.blobs_length_le
  have hle := h.accepted.blobs
  have hpieces := h.accepted.pieces
  have hbase := h.keeps.length_eq
  refine ends_forRange (Staged H store contents hash bytes) ⟨[], .nil, .nil, ?_, ?_, ?_, rfl, rfl, ?_, hsize, ?_⟩ ?_
  · exact fun j hj => absurd hj (Nat.not_lt_zero j)
  · exact Nat.le_refl 0
  · show contents.length + 0 ≤ 2 ^ 32
    omega
  · exact Nat.zero_le _
  · exact ⟨hsized, hcapacity.trans h.index_capacity, h.pieces_capacity, h.blobs_capacity⟩
  · exact fun i now hi hnow => h.ends_stageChunk hpayload hadopted hi hstaged hbytes hnow hE

end Staging

/-! ### Appending -/

section Appending

variable {record : StoredRecord} {payload : Capture H} {adopted : Span}

/-- The hash of a record begins with the size it was given. -/
theorem Proper.added (h : Proper record payload adopted) :
    UInt64.ofNat payload.span.bytes.length = record.metadata.completedBytes := by
  rw [← UInt64.toNat_inj, h.completed, UInt64.toNat_ofNat']
  exact Nat.mod_eq_of_lt payload.span.addressable

/-- Bytes that were handed over are the bytes of the payload. -/
theorem Proper.adopted_eq (h : Proper record payload adopted)
    (hmemory : OneMemory adopted payload.span) :
    adopted.bytes = [] ∨ adopted.bytes = payload.span.bytes :=
  h.adopted.imp_right fun hsame => hmemory hsame.1 hsame.2

/-- A store that is as it was, and why. -/
theorem Holds.refused (h : store.Holds H entries contents)
    (hreason : ¬ (Proper record payload adopted ∧
      Admits store.limits entries record.metadata.role payload.span.bytes.length ∧
      store.Room payload.span.bytes.length)) :
    Refused H store entries contents record payload adopted (false, store) :=
  ⟨rfl, Unchanged.refl store, h, rfl, hreason⟩

/-- The budget admits what the limits admit. -/
theorem Holds.fitsBudget_iff (h : store.Holds H entries contents) {size : Nat}
    (hsize : size < 2 ^ 64) :
    fitsBudget store.logicalBytes (UInt64.ofNat size) store.limits.bytes = true ↔
      Placed.total entries + size ≤ store.limits.bytes.toNat := by
  have hword : (UInt64.ofNat size).toNat = size := by
    rw [UInt64.toNat_ofNat']
    exact Nat.mod_eq_of_lt hsize
  have hlimit := store.limits.bytes.toNat_lt
  rw [fitsBudget, Bool.and_eq_true, decide_eq_true_eq, checkedAdd_iff, h.logical, hword,
    UInt64.le_iff_toNat_le, UInt64.toNat_add, h.logical, hword]
  constructor
  · rintro ⟨hlt, hle⟩
    rwa [Nat.mod_eq_of_lt hlt] at hle
  · intro hle
    have hlt : Placed.total entries + size < 2 ^ 64 := by omega
    exact ⟨hlt, by rwa [Nat.mod_eq_of_lt hlt]⟩

/-- The records and the indices of the roles after a commit. -/
theorem roleIndices_commit (role : Role) (pieces : List Piece) (added : UInt64) :
    ((store.commit record pieces added).roleIndices role).items.length =
      (store.roleIndices role).items.length + if record.metadata.role = role then 1 else 0 := by
  rw [commit]
  cases hrole : record.metadata.role with
  | host =>
      cases role with
      | host => simp [roleIndices]
      | input => simp [roleIndices]
  | input =>
      cases role with
      | host => simp [roleIndices]
      | input => simp [roleIndices]

theorem commit_fields (pieces : List Piece) (added : UInt64) :
    (store.commit record pieces added).records.items = store.records.items ++ [record] ∧
      (store.commit record pieces added).pieces =
        store.pieces.replace (store.pieces.items ++ pieces) ∧
      (store.commit record pieces added).logicalBytes = store.logicalBytes + added ∧
      (store.commit record pieces added).backend = store.backend ∧
      (store.commit record pieces added).limits = store.limits := by
  rw [commit]
  cases record.metadata.role with
  | host => exact ⟨rfl, rfl, rfl, rfl, rfl⟩
  | input => exact ⟨rfl, rfl, rfl, rfl, rfl⟩

theorem commit_scratch (pieces : List Piece) (added : UInt64) :
    (store.commit record pieces added).stagedIndex = store.stagedIndex ∧
      (store.commit record pieces added).pieceScratch = store.pieceScratch ∧
      (store.commit record pieces added).stagedBlobs = store.stagedBlobs ∧
      (store.commit record pieces added).loadedArchive = store.loadedArchive ∧
      (store.commit record pieces added).loadedDiagnosticActive = store.loadedDiagnosticActive ∧
      (store.commit record pieces added).publication = store.publication ∧
      (store.commit record pieces added).publicationChunks = store.publicationChunks := by
  rw [commit]
  cases record.metadata.role with
  | host => exact ⟨rfl, rfl, rfl, rfl, rfl, rfl, rfl⟩
  | input => exact ⟨rfl, rfl, rfl, rfl, rfl, rfl, rfl⟩

/-- **What is staged can be committed.** -/
theorem Holds.commit (h : store.Holds H entries contents) {now : Staging}
    {more : List (List UInt8)}
    (hproper : Proper record payload adopted)
    (hadmits : Admits store.limits entries record.metadata.role payload.span.bytes.length)
    (hnow : StagedAs H store contents
      (beginRecordHash record.metadata (UInt64.ofNat payload.span.bytes.length)
        (UInt64.ofNat (chunkCount payload.span.bytes.length)))
      payload.span.bytes (chunkCount payload.span.bytes.length) now more)
    (hpieces : store.pieces.items.length + chunkCount payload.span.bytes.length ≤
      store.pieces.capacity)
    {backend : Backend} (hkeeps : backend.Keeps H (contents ++ more))
    (hblobs : backend.blobs = store.backend.blobs ++ now.stagedBlobs.items)
    (hcapacity : backend.index.capacity = store.backend.index.capacity) :
    (Store.commit { store.withScratch now with backend := backend }
      { record with
        recordHash := now.recordHash
        pieceOffset := UInt32.ofNat store.pieces.items.length
        pieceCount := UInt32.ofNat now.pieceScratch.items.length }
      now.pieceScratch.items (UInt64.ofNat payload.span.bytes.length)).Holds H
      (entries ++ [⟨record.metadata, now.pieceScratch.items,
        cut payload.span.bytes (chunkCount payload.span.bytes.length)⟩]) (contents ++ more) := by
  obtain ⟨hrecords, hpieces', hlogical, hbackend, hlimits⟩ := @commit_fields
    { store.withScratch now with backend := backend }
    { record with
      recordHash := now.recordHash
      pieceOffset := UInt32.ofNat store.pieces.items.length
      pieceCount := UInt32.ofNat now.pieceScratch.items.length }
    now.pieceScratch.items (UInt64.ofNat payload.span.bytes.length)
  obtain ⟨hindex, hscratch, hstaged, hloaded, hactive, hpublication, hpublished⟩ := @commit_scratch
    { store.withScratch now with backend := backend }
    { record with
      recordHash := now.recordHash
      pieceOffset := UInt32.ofNat store.pieces.items.length
      pieceCount := UInt32.ofNat now.pieceScratch.items.length }
    now.pieceScratch.items (UInt64.ofNat payload.span.bytes.length)
  have hlen : now.pieceScratch.items.length = chunkCount payload.span.bytes.length := by
    rw [hnow.pieces.length_eq, length_cut]
  have hbytes : (cut payload.span.bytes (chunkCount payload.span.bytes.length)).flatten =
      payload.span.bytes := flatten_cut_chunkCount _
  have hsum : (store.logicalBytes + UInt64.ofNat payload.span.bytes.length).toNat =
      Placed.total entries + payload.span.bytes.length := by
    have hlimit := store.limits.bytes.toNat_lt
    have hadmitted := hadmits.2
    rw [UInt64.toNat_add, h.logical, hproper.added, hproper.completed]
    exact Nat.mod_eq_of_lt (by omega)
  have hcap : store.pieces.capacity = store.limits.pieces := h.capacity
  have haccepted := h.accepted.pieces
  refine ⟨⟨?_, ?_, ?_, ?_, ?_⟩, ⟨?_, ?_, ?_, ?_⟩, ?_, ?_, ?_, ?_, ?_, ?_, ?_, ?_, ?_, ?_, ?_, ?_⟩
  · rw [hbackend]
    exact hkeeps
  · rw [hrecords, Placed.layout_append, Nat.zero_add, ← h.pieces]
    show store.records.items ++ _ = _
    rw [h.records, Placed.layout, Placed.layout, Placed.recordHash, length_cut, ← hproper.added,
      hnow.recordHash]
  · rw [hpieces', List.flatMap_append, ← h.pieces, List.flatMap_cons, List.flatMap_nil,
      List.append_nil]
    rfl
  · intro entry hentry
    rcases List.mem_append.mp hentry with hold | hnew
    · exact (h.stands entry hold).append more
    · obtain rfl := List.mem_singleton.mp hnew
      refine ⟨hnow.pieces, ?_, ?_, ?_⟩
      · rw [hproper.completed, Placed.bytes, hbytes]
      · rw [hproper.hash, payload.genuine hproper.valid, Placed.bytes, hbytes]
      · rw [length_cut, Placed.bytes, hbytes]
  · rw [hpieces']
    show (store.pieces.items ++ now.pieceScratch.items).length ≤ 0xffffffff
    rw [List.length_append, hlen]
    omega
  · rw [hindex]
    exact hnow.prepared.stagedIndex
  · rw [hindex, hlimits]
    exact hnow.prepared.index_capacity
  · rw [hscratch, hlimits]
    exact hnow.prepared.pieces_capacity
  · rw [hstaged, hlimits]
    exact hnow.prepared.blobs_capacity
  · rw [hlimits]
    exact h.accepted
  · intro i hi
    rw [hpieces']
    rw [List.length_append] at hi
    rcases Nat.lt_or_ge i contents.length with hold | hnew
    · obtain ⟨piece, hmem, hat⟩ := h.referenced i hold
      exact ⟨piece, List.mem_append_left _ hmem, hat⟩
    · obtain ⟨piece, hmem, hat⟩ := hnow.referenced (i - contents.length) (by omega)
      exact ⟨piece, List.mem_append_right _ hmem, by omega⟩
  · have hold := h.encoded_le
    have hle := hnow.encoded_le
    rw [hbytes] at hle
    rw [hbackend, Placed.total_concat, Placed.bytes, hbytes]
    show encodedLength backend.blobs ≤ _
    rw [hblobs, encodedLength_append]
    omega
  · rw [hlogical, Placed.total_concat, Placed.bytes, hbytes]
    exact hsum
  · rw [hlimits, Placed.total_concat, Placed.bytes, hbytes]
    exact hadmits.2
  · intro role
    rw [roleIndices_commit, Placed.countRole_concat]
    exact congrArg (· + _) (h.roles role)
  · intro role
    have hold := h.roles_le role
    rw [hlimits, Placed.countRole_concat]
    show Placed.countRole role entries + _ ≤ roleLimit store.limits role
    split_ifs with hrole
    · have hroom := hadmits.1
      dsimp only at hrole
      rw [hrole] at hroom
      exact hroom
    · exact hold
  · rw [hpieces', hlimits]
    show max store.pieces.capacity (store.pieces.items ++ now.pieceScratch.items).length = _
    rw [List.length_append, hlen, Nat.max_eq_left hpieces]
    exact hcap
  · rw [hbackend, hlimits]
    exact hcapacity.trans h.blobs_capacity'
  · rw [hloaded, hactive]
    exact h.fresh
  · rw [hpublication, hpublished]
    exact h.unpublished
  · exact fun hnil => absurd hnil (by simp)

/-- The second half of appending adds an entry, or changes nothing. -/
theorem Holds.ends_storeChunks (h : store.Holds H entries contents)
    (hproper : Proper record payload adopted) (hmemory : OneMemory adopted payload.span)
    (hrole : Placed.countRole record.metadata.role entries <
      roleLimit store.limits record.metadata.role) :
    Ends (storeChunks H store record payload adopted)
      (fun result => Refused H store entries contents record payload adopted result ∨
        Appended H store entries contents record payload adopted result)
      (fun result => Refused H store entries contents record payload adopted result ∨
        Appended H store entries contents record payload adopted result) := by
  have hrefused : ∀ result : Store, result.Holds H entries contents → store.Unchanged result →
      result.limits = store.limits →
      ¬ (Admits store.limits entries record.metadata.role payload.span.bytes.length ∧
        store.Room payload.span.bytes.length) →
      Refused H store entries contents record payload adopted (false, result) :=
    fun result hresult hsame hlim hno => ⟨rfl, hsame, hresult, hlim, fun hall => hno hall.2⟩
  rw [storeChunks]
  dsimp only
  have hbudget := h.fitsBudget_iff payload.span.addressable
  refine Ends.require_bind ?_ fun hbytes => ?_
  · refine fun hno => Or.inl (hrefused store h (Unchanged.refl store) rfl fun hall => hno ?_)
    exact hbudget.mpr hall.1.2
  have hadmits : Admits store.limits entries record.metadata.role payload.span.bytes.length :=
    ⟨hrole, hbudget.mp hbytes⟩
  have hscratch : store.pieceScratch.capacity = store.limits.staged := h.pieces_capacity
  have hpieces : store.pieces.capacity = store.limits.pieces := h.capacity
  have hblobs := h.blobs_length_le
  have haccepted' := h.accepted
  have hblobsLe := haccepted'.blobs
  have hpiecesLe := haccepted'.pieces
  refine Ends.require_bind ?_ fun hspace => ?_
  · refine fun hno => Or.inl (hrefused store h (Unchanged.refl store) rfl fun hall => hno ?_)
    have hroom := hall.2
    have h1 := hroom.staged
    have h2 := hroom.pieces
    exact ⟨by omega, by omega, by omega⟩
  have hpayload : record.metadata.payloadHash = H.hashBytes payload.span.bytes :=
    hproper.hash.trans (payload.genuine hproper.valid)
  have hstage := h.ends_stageChunks
    (E := fun result => Refused H store entries contents record payload adopted result ∨
      Appended H store entries contents record payload adopted result) hpayload (hproper.adopted_eq hmemory) (by omega)
    payload.span.addressable
    (fun hno now hprepared => Or.inl (hrefused (store.withScratch now) (h.withScratch hprepared)
      (Unchanged.withScratch now) rfl fun hall => hno (hall.2)))
    (beginRecordHash record.metadata (UInt64.ofNat payload.span.bytes.length)
      (UInt64.ofNat (chunkCount payload.span.bytes.length)))
  refine Ends.bind hstage ?_
  rintro staged ⟨more, hstaged⟩
  have hscratched := h.withScratch hstaged.prepared
  have hflat : (cut payload.span.bytes (chunkCount payload.span.bytes.length)).flatten =
      payload.span.bytes := flatten_cut_chunkCount _
  have hshort := hstaged.encoded_le
  rw [hflat] at hshort
  have hkept := h.encoded_le
  have hcounted := h.keeps.encoded
  have hroomBytes := hadmits.2
  have hword := store.limits.bytes.toNat_lt
  refine Ends.require_bind ?_ fun _ => ?_
  · -- the encoded bytes are no more than the bytes
    refine fun hno => absurd ?_ hno
    show fitsBudget store.backend.memory.encodedBytes staged.encodedBytes store.limits.bytes = true
    rw [fitsBudget, Bool.and_eq_true, decide_eq_true_eq, checkedAdd_iff,
      UInt64.le_iff_toNat_le, UInt64.toNat_add, hcounted, hstaged.encoded]
    have hlt : encodedLength store.backend.blobs + encodedLength staged.stagedBlobs.items < 2 ^ 64 := by
      omega
    rw [Nat.mod_eq_of_lt hlt]
    exact ⟨hlt, by omega⟩
  have hfew := hstaged.few
  refine Ends.require_bind ?_ fun hcan => ?_
  · refine fun hno => Or.inl (hrefused _ hscratched (Unchanged.withScratch staged) rfl
      fun hall => hno ?_)
    have hroom := (hall.2).blobs
    have hsize := h.keeps.indexed
    have hcapacity := h.blobs_capacity'
    show store.backend.canAppend staged.stagedBlobs.items = true
    rw [Backend.canAppend, h.keeps.writable, Bool.true_and, decide_eq_true_eq, hsize, hcapacity]
    omega
  obtain ⟨backend, happend, hkeeps, hgrown, hcapacity, -⟩ :=
    @Backend.Keeps.append_eq (Bool × Store) _ _ _ h.keeps _ _ hstaged.blobs hcan (by omega)
  have happend' : ((store.withScratch staged).backend.append (store.withScratch staged).stagedBlobs.items :
      Checked (Bool × Store) _) = _ := happend
  rw [happend', ok_bind]
  have hbaseWord : (UInt32.ofNat store.backend.blobs.length).toNat = store.backend.blobs.length := by
    rw [UInt32.toNat_ofNat']
    exact Nat.mod_eq_of_lt (by omega)
  have hcountWord : (UInt32.ofNat staged.stagedBlobs.items.length).toNat =
      staged.stagedBlobs.items.length := by
    have hstagedLe := haccepted'.staged
    rw [UInt32.toNat_ofNat']
    exact Nat.mod_eq_of_lt (by omega)
  dsimp only
  refine Ends.require_bind (fun hno => absurd ⟨hbaseWord, hcountWord⟩ hno) fun _ => ?_
  -- nothing was published, so there is nothing to take back
  have hunpublished : ({ store.withScratch staged with backend := backend } : Store) =
      { store.withScratch staged with
        backend := backend, publication := [], publicationChunks := 0 } := by
    show ({ store.withScratch staged with
      backend := backend
      publication := store.publication
      publicationChunks := store.publicationChunks } : Store) = _
    rw [h.unpublished.1, h.unpublished.2]
  rw [← hunpublished, ite_self]
  have hspaceLe : store.pieces.items.length + chunkCount payload.span.bytes.length ≤
      store.pieces.capacity := by
    have hfits := store.pieces.fits
    omega
  refine ends_pure (Or.inr ⟨rfl, hproper, hadmits, ?_, staged.pieceScratch.items, more, ?_⟩)
  · exact (commit_fields _ _).2.2.2.2
  · exact h.commit hproper hadmits hstaged hspaceLe hkeeps hgrown
      hcapacity

/-- **Appending a record** adds an entry with the bytes of the payload, or changes nothing. -/
theorem Holds.ends_appendRecordSteps (h : store.Holds H entries contents)
    (hmemory : OneMemory adopted payload.span) :
    Ends (appendRecordSteps H store record payload adopted)
      (fun result => Refused H store entries contents record payload adopted result ∨
        Appended H store entries contents record payload adopted result)
      (fun result => Refused H store entries contents record payload adopted result ∨
        Appended H store entries contents record payload adopted result) := by
  have haccepted := h.accepted
  have hbase := h.blobs_length_le
  rw [appendRecordSteps]
  refine Ends.require_bind ?_ fun hvalid => ?_
  · exact fun hno => Or.inl (h.refused fun hall => hno hall.1.valid)
  dsimp only
  refine Ends.require_bind ?_ fun hmatch => ?_
  · exact fun hno => Or.inl
      (h.refused fun hall => hno ⟨hall.1.completed, hall.1.hash, hall.1.adopted⟩)
  have hproper : Proper record payload adopted := ⟨hvalid, hmatch.1, hmatch.2.1, hmatch.2.2⟩
  rw [if_neg (by rw [h.fresh.1]; exact Bool.noConfusion)]
  show Ends (Except.ok (true, store) >>= _) _ _
  rw [ok_bind]
  refine Ends.require_bind (fun hno => absurd rfl hno) fun _ => ?_
  refine Ends.require_bind ?_ fun hrole => ?_
  · refine fun hno => Or.inl (h.refused fun hall => hno ?_)
    have hroom := hall.2.1.1
    rw [← h.roles] at hroom
    exact Nat.not_le.mpr hroom
  -- from here on only the marks of a loaded store are gone
  have hnext : ({ store with loadedArchive := false, loadedPayloadHash := 0 } : Store).Holds H
      entries contents := { h with fresh := ⟨rfl, h.fresh.2⟩ }
  have hcount := hrole
  rw [not_le, h.roles] at hcount
  have hseen : payloadHash { store with loadedArchive := false, loadedPayloadHash := 0 } =
      store.payloadHash := by
    rw [payloadHash, payloadHash, h.fresh.1]
    rfl
  have hdone : ∀ result,
      Refused H { store with loadedArchive := false, loadedPayloadHash := 0 } entries contents
          record payload adopted result ∨
        Appended H { store with loadedArchive := false, loadedPayloadHash := 0 } entries contents
          record payload adopted result →
      Refused H store entries contents record payload adopted result ∨
        Appended H store entries contents record payload adopted result := by
    rintro result (hno | hyes)
    · have hsame := hno.unchanged
      refine Or.inl ⟨hno.answer, ⟨hsame.records, hsame.pieces, hsame.blobs,
        hsame.payloadHash.trans hseen, hsame.logicalBytes⟩, hno.holds, hno.limits, ?_⟩
      intro hall
      have hroom := hall.2.2
      exact hno.reason ⟨hall.1, hall.2.1, ⟨hroom.1, hroom.2, hroom.3⟩⟩
    · exact Or.inr ⟨hyes.answer, hyes.proper, hyes.admits, hyes.limits, hyes.entry⟩
  exact ((hnext.ends_storeChunks hproper hmemory hcount).mono hdone).mono_post hdone

/-- `AppendRecord` always returns. -/
theorem Holds.appendRecord_eq (h : store.Holds H entries contents)
    (record : StoredRecord) (payload : Capture H) {adopted : Span}
    (hmemory : OneMemory adopted payload.span) :
    ∃ result, (store.appendRecord H record payload adopted : Checked ε (Bool × Store)) =
        Except.ok result ∧
      (Refused H store entries contents record payload adopted result ∨
        Appended H store entries contents record payload adopted result) :=
  (Ends.call (h.ends_appendRecordSteps hmemory)).returns

end Appending

end Store

end RunD
