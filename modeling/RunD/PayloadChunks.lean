/-
Cutting a payload into chunks, and what the backend of a store keeps.

A payload is cut at the multiples of `kChunkBytes`.  The backend keeps a list
of blobs that stand for a list of contents (`Backend.Keeps`); it only ever
grows at its end, and nothing but the room in its index stops it.
-/
import RunD.PayloadStore
import Mathlib.Data.List.Forall2
import Mathlib.Algebra.BigOperators.Group.List.Basic

namespace RunD

variable {α β ε : Type}

/-! ### Lists side by side -/

theorem forall₂_getElem? {R : α → β → Prop} {xs : List α} {ys : List β}
    (h : List.Forall₂ R xs ys) {i : Nat} {x : α} (hx : xs[i]? = some x) :
    ∃ y, ys[i]? = some y ∧ R x y := by
  induction h generalizing i with
  | nil => cases hx
  | cons hhead htail ih =>
      cases i with
      | zero =>
          cases hx
          exact ⟨_, rfl, hhead⟩
      | succ i => exact ih hx

theorem forall₂_concat {R : α → β → Prop} {xs : List α} {ys : List β} {x : α} {y : β}
    (h : List.Forall₂ R xs ys) (hxy : R x y) : List.Forall₂ R (xs ++ [x]) (ys ++ [y]) :=
  List.rel_append h (.cons hxy .nil)

/-! ### Cutting -/

/-- The chunk of a payload that begins at the multiple `i` of the chunk size. -/
def chunkAt (bytes : List UInt8) (i : Nat) : List UInt8 :=
  (bytes.drop (i * kChunkBytes)).take (min kChunkBytes (bytes.length - i * kChunkBytes))

/-- The first chunks of a payload. -/
def cut (bytes : List UInt8) (n : Nat) : List (List UInt8) := (List.range n).map (chunkAt bytes)

theorem chunkAt_eq (bytes : List UInt8) (i : Nat) :
    chunkAt bytes i = (bytes.drop (i * kChunkBytes)).take kChunkBytes := by
  rw [chunkAt]
  rcases Nat.le_total kChunkBytes (bytes.length - i * kChunkBytes) with hle | hle
  · rw [Nat.min_eq_left hle]
  · rw [Nat.min_eq_right hle, List.take_of_length_le (by rw [List.length_drop]),
      List.take_of_length_le (by rw [List.length_drop]; exact hle)]

theorem length_chunkAt (bytes : List UInt8) (i : Nat) :
    (chunkAt bytes i).length = min kChunkBytes (bytes.length - i * kChunkBytes) := by
  rw [chunkAt_eq, List.length_take, List.length_drop]

theorem length_chunkAt_le (bytes : List UInt8) (i : Nat) :
    (chunkAt bytes i).length ≤ kChunkBytes := by
  rw [length_chunkAt]
  exact Nat.min_le_left _ _

theorem cut_succ (bytes : List UInt8) (n : Nat) :
    cut bytes (n + 1) = cut bytes n ++ [chunkAt bytes n] := by
  rw [cut, List.range_succ, List.map_append]
  rfl

@[simp] theorem length_cut (bytes : List UInt8) (n : Nat) : (cut bytes n).length = n := by
  rw [cut, List.length_map, List.length_range]

/-- The first chunks put together are the beginning of the payload. -/
theorem flatten_cut (bytes : List UInt8) (n : Nat) :
    (cut bytes n).flatten = bytes.take (n * kChunkBytes) := by
  induction n with
  | zero => rw [Nat.zero_mul, List.take_zero]; rfl
  | succ n ih =>
      rw [cut_succ, List.flatten_append, ih, List.flatten_cons, List.flatten_nil, List.append_nil,
        chunkAt_eq, Nat.succ_mul, List.take_add]

theorem lt_of_lt_chunkCount {size i : Nat} (h : i < chunkCount size) : i * kChunkBytes < size := by
  rw [chunkCount, kChunkBytes] at *
  split at h <;> omega

theorem le_chunkCount_mul (size : Nat) : size ≤ chunkCount size * kChunkBytes := by
  rw [chunkCount, kChunkBytes]
  split <;> omega

theorem chunkCount_mono {size limit : Nat} (h : size ≤ limit) :
    chunkCount size ≤ chunkCount limit := by
  rw [chunkCount, chunkCount, kChunkBytes]
  split <;> split <;> omega

/-- A payload takes at most one chunk more than there are whole ones in it. -/
theorem chunkCount_le (size : Nat) : chunkCount size ≤ 1 + size / kChunkBytes := by
  rw [chunkCount, kChunkBytes]
  split <;> omega

theorem chunkAt_pos {bytes : List UInt8} {i : Nat} (h : i < chunkCount bytes.length) :
    0 < (chunkAt bytes i).length := by
  have hlt := lt_of_lt_chunkCount h
  rw [length_chunkAt, kChunkBytes]
  rw [kChunkBytes] at hlt
  omega

/-- All chunks put together are the payload. -/
theorem flatten_cut_chunkCount (bytes : List UInt8) :
    (cut bytes (chunkCount bytes.length)).flatten = bytes := by
  rw [flatten_cut]
  exact List.take_of_length_le (le_chunkCount_mul _)

/-- A payload of one chunk is its chunk. -/
theorem chunkAt_single {bytes : List UInt8} (h : chunkCount bytes.length = 1) :
    chunkAt bytes 0 = bytes := by
  have hflat := flatten_cut_chunkCount bytes
  rw [h, cut_succ] at hflat
  simpa [cut] using hflat

/-! ### The backend -/

/-- The length of what blobs are kept by. -/
def encodedLength (blobs : List Blob) : Nat := (blobs.map fun blob => blob.encoded.length).sum

theorem encodedLength_append (xs ys : List Blob) :
    encodedLength (xs ++ ys) = encodedLength xs + encodedLength ys := by
  rw [encodedLength, List.map_append, List.sum_append]
  rfl

/-- The backend keeps blobs for these contents. -/
structure Backend.Keeps (H : ByteHasher) (backend : Backend) (contents : List (List UInt8)) :
    Prop where
  blobs : List.Forall₂ (Blob.Holds H) backend.blobs contents
  sized : backend.index.Sized
  indexed : backend.index.size = backend.blobs.length
  encoded : backend.memory.encodedBytes.toNat = encodedLength backend.blobs
  writable : backend.writable = true

namespace Backend

variable {H : ByteHasher} {backend : Backend} {contents : List (List UInt8)}

theorem Keeps.length_eq (h : backend.Keeps H contents) :
    backend.blobs.length = contents.length := h.blobs.length_eq

/-- What is found is a blob with the content looked for. -/
theorem Keeps.ends_find {E : ε → Prop} (h : backend.Keeps H contents) (bytes : List UInt8)
    (payloadHash : UInt64) :
    Ends (backend.find bytes payloadHash)
      (fun found => ∀ blobIndex, found = some blobIndex →
        contents[blobIndex.toNat]? = some bytes) E := by
  refine Ends.mono_post (h.sized.ends_find payloadHash _) ?_
  intro found hfound blobIndex hsome
  have haccepts := hfound blobIndex hsome
  cases hblob : backend.blobs[blobIndex.toNat]? with
  | none =>
      rw [hblob] at haccepts
      cases haccepts
  | some blob =>
      rw [hblob] at haccepts
      obtain ⟨content, hcontent, hholds⟩ := forall₂_getElem? h.blobs hblob
      rw [hcontent, hholds.eq_of_matches haccepts]

/-- Blobs that fit into the index go into it. -/
theorem indexBlobs_eq (blobs : List Blob) (first n : Nat) {index : PayloadIndex}
    (hsized : index.Sized) (hlen : first + n ≤ blobs.length) (hroom : index.size + n ≤ index.capacity) :
    ∃ index' : PayloadIndex, forRange n (fun offset => indexBlob blobs (first + offset)) index =
        Except.ok index' ∧ index'.Sized ∧ index'.size = index.size + n ∧
      index'.capacity = index.capacity := by
  have hloop : Ends (forRange n (fun offset => indexBlob blobs (first + offset)) index)
      (fun now : PayloadIndex => now.Sized ∧ now.size = index.size + n ∧
        now.capacity = index.capacity) (fun _ => False) := by
    refine ends_forRange (fun i (now : PayloadIndex) => now.Sized ∧ now.size = index.size + i ∧
      now.capacity = index.capacity) ⟨hsized, rfl, rfl⟩ ?_
    rintro i now hi ⟨hnow, hsize, hcapacity⟩
    refine Ends.bind (ends_fetch (by omega)) ?_
    intro blob _
    obtain ⟨next, hinsert, hnext, hgrown, hsame⟩ :=
      @PayloadIndex.Sized.insert_eq PayloadIndex now hnow (by omega) blob.payloadHash
        (UInt32.ofNat (first + i))
    rw [hinsert, ok_bind]
    refine Ends.require_bind (fun hno => absurd rfl hno) ?_
    intro _
    exact ends_pure ⟨hnext, by show next.size = _; omega, hsame.trans hcapacity⟩
  exact hloop.returns

/-- Blobs go to the end of the memory, which counts their bytes. -/
theorem foldl_append_memory (blobs : List Blob) (memory : MemoryBlobs) :
    (blobs.foldl MemoryBlobs.append memory).blobs.items = memory.blobs.items ++ blobs ∧
      (memory.blobs.items.length + blobs.length ≤ memory.blobs.capacity →
        (blobs.foldl MemoryBlobs.append memory).blobs.capacity = memory.blobs.capacity ∧
        (blobs.foldl MemoryBlobs.append memory).growths = memory.growths) := by
  induction blobs generalizing memory with
  | nil => exact ⟨by simp, fun _ => ⟨rfl, rfl⟩⟩
  | cons blob blobs ih =>
      obtain ⟨hitems, hroom⟩ := ih (memory.append blob)
      have hgrown : (memory.append blob).blobs.items = memory.blobs.items ++ [blob] := rfl
      rw [List.foldl_cons]
      refine ⟨by rw [hitems, hgrown, List.append_assoc]; rfl, ?_⟩
      intro hfits
      rw [List.length_cons] at hfits
      have hcapacity : (memory.append blob).blobs.capacity = memory.blobs.capacity := by
        show max memory.blobs.capacity (memory.blobs.items ++ [blob]).length = _
        rw [List.length_append, List.length_singleton]
        omega
      obtain ⟨hsame, hgrowths⟩ := hroom (by
        rw [hgrown, hcapacity, List.length_append, List.length_singleton]
        omega)
      refine ⟨hsame.trans hcapacity, hgrowths.trans ?_⟩
      show (if (memory.append blob).blobs.capacity ≠ memory.blobs.capacity then
        counterSaturatingAdd memory.growths 1 else memory.growths) = _
      rw [if_neg (not_not.mpr hcapacity)]

theorem foldl_append_encoded {blobs : List Blob} {contents : List (List UInt8)}
    (h : List.Forall₂ (Blob.Holds H) blobs contents) (memory : MemoryBlobs)
    (hfits : memory.encodedBytes.toNat + encodedLength blobs < 2 ^ 64) :
    (blobs.foldl MemoryBlobs.append memory).encodedBytes.toNat =
      memory.encodedBytes.toNat + encodedLength blobs := by
  induction h generalizing memory with
  | nil => rfl
  | @cons blob content blobs contents hblob _ ih =>
      have hsum : encodedLength (blob :: blobs) = blob.encoded.length + encodedLength blobs := rfl
      have hnext : (memory.append blob).encodedBytes.toNat =
          memory.encodedBytes.toNat + blob.encoded.length := by
        show (memory.encodedBytes + blob.encodedBytes).toNat = _
        rw [UInt64.toNat_add, hblob.encoded_size]
        exact Nat.mod_eq_of_lt (by omega)
      rw [List.foldl_cons, ih _ (by omega), hnext]
      omega

/-- **Blobs that find room in the index are appended.** -/
theorem Keeps.append_eq (h : backend.Keeps H contents) {blobs : List Blob}
    {more : List (List UInt8)} (hblobs : List.Forall₂ (Blob.Holds H) blobs more)
    (hroom : backend.canAppend blobs = true)
    (hfits : encodedLength backend.blobs + encodedLength blobs < 2 ^ 64) :
    ∃ backend' : Backend, (backend.append blobs : Checked ε (Option (UInt32 × UInt32) × Backend)) =
        Except.ok (some (UInt32.ofNat backend.blobs.length, UInt32.ofNat blobs.length), backend') ∧
      backend'.Keeps H (contents ++ more) ∧ backend'.blobs = backend.blobs ++ blobs ∧
      backend'.index.capacity = backend.index.capacity ∧
      backend'.memory = blobs.foldl MemoryBlobs.append backend.memory := by
  obtain ⟨hitems, -⟩ := foldl_append_memory blobs backend.memory
  have hcan := hroom
  rw [canAppend, Bool.and_eq_true, decide_eq_true_eq] at hcan
  have hle := h.sized.size_le
  obtain ⟨index, hloop, hsized, hsize, hcapacity⟩ := indexBlobs_eq
    (blobs.foldl MemoryBlobs.append backend.memory).blobs.items backend.blobs.length blobs.length
    h.sized (by rw [hitems, List.length_append]; exact Nat.le_refl _) (by omega)
  refine ⟨{ backend with
      memory := blobs.foldl MemoryBlobs.append backend.memory, index := index }, ?_, ?_, ?_, ?_, rfl⟩
  · rw [append, if_neg (by rw [hroom]; exact Bool.noConfusion)]
    dsimp only
    rw [hloop]
    rfl
  · refine ⟨?_, hsized, ?_, ?_, h.writable⟩
    · show List.Forall₂ _ (blobs.foldl MemoryBlobs.append backend.memory).blobs.items _
      rw [hitems]
      exact List.rel_append h.blobs hblobs
    · show index.size = (blobs.foldl MemoryBlobs.append backend.memory).blobs.items.length
      rw [hsize, h.indexed, hitems, List.length_append]
      rfl
    · show (blobs.foldl MemoryBlobs.append backend.memory).encodedBytes.toNat =
        encodedLength (blobs.foldl MemoryBlobs.append backend.memory).blobs.items
      rw [foldl_append_encoded hblobs _ (by rw [h.encoded]; exact hfits), h.encoded, hitems,
        encodedLength_append]
      rfl
  · exact hitems
  · exact hcapacity

end Backend

end RunD
