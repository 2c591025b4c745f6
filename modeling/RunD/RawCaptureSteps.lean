/-
What the operations of the raw capture ring do to the captures it holds.

`Holds ring entries` links the two rings with a plain list of captures: the
bytes of the entries stand one after the other around the ring of bytes, and
their records, each with the place where its bytes begin, around the ring of
records.  An eviction takes the first entry away, a capture that is retained
puts one at the end.
-/
import RunD.RawCapture

namespace RunD.RawCapture

/-! ### Slices -/

/-- The bytes that a span points to. -/
def ByteSpan.content : ByteSpan → List UInt8
  | .bytes content => content
  | .null _ => []

/-- The bytes of slices, one slice after the other. -/
def spansContent (slices : List ByteSpan) : List UInt8 := slices.flatMap ByteSpan.content

/-- No slice is a null pointer with a size, and together they have the bytes that are asked for. -/
structure RawByteSource.WellFormed (source : RawByteSource) : Prop where
  pointed : ∀ slice ∈ source.slices, slice.isNull = true → slice.size = 0
  enough : source.byteCount.toNat ≤ (source.slices.map ByteSpan.size).sum

/-- The bytes of a capture. -/
def RawByteSource.content (source : RawByteSource) : List UInt8 :=
  (spansContent source.slices).take source.byteCount.toNat

theorem ByteSpan.size_eq {slice : ByteSpan} (h : slice.isNull = true → slice.size = 0) :
    slice.size = slice.content.length := by
  cases slice with
  | bytes content => rfl
  | null size => exact h rfl

theorem ByteSpan.first_eq (slice : ByteSpan) (count : Nat) :
    slice.first count = slice.content.take count := by
  cases slice with
  | bytes content => rfl
  | null size => exact List.take_nil.symm

theorem length_spansContent {slices : List ByteSpan}
    (h : ∀ slice ∈ slices, slice.isNull = true → slice.size = 0) :
    (spansContent slices).length = (slices.map ByteSpan.size).sum := by
  induction slices with
  | nil => rfl
  | cons slice rest ih =>
      rw [spansContent, List.flatMap_cons, List.length_append, List.map_cons, List.sum_cons,
        ByteSpan.size_eq (h slice (by simp))]
      congr 1
      exact ih (fun s hs => h s (List.mem_cons_of_mem _ hs))

/-- The bytes that one slice gives, and those that are left for the next ones. -/
theorem take_spansContent {slice : ByteSpan} {rest : List ByteSpan} {remaining : Nat}
    (h : slice.isNull = true → slice.size = 0) :
    (spansContent (slice :: rest)).take remaining =
      slice.first (min slice.size remaining) ++
        (spansContent rest).take (remaining - min slice.size remaining) := by
  have hcons : spansContent (slice :: rest) = slice.content ++ spansContent rest := rfl
  rw [hcons, List.take_append, ByteSpan.first_eq, ByteSpan.size_eq h, Nat.min_comm,
    List.take_eq_take_min]
  congr 2
  omega

theorem RawByteSource.WellFormed.length_content {source : RawByteSource} (h : source.WellFormed) :
    source.content.length = source.byteCount.toNat := by
  rw [RawByteSource.content, List.length_take, length_spansContent h.pointed]
  have := h.enough
  omega

section Hashed

variable {H : ByteHasher} {nullByteHash : UInt64 → UInt64}

/-! ### The hash of a source -/

theorem hashTail_eq {byteCount : UInt64} {slices : List ByteSpan} {remaining : Nat}
    {hash : H.State} {before : List UInt8}
    (hpointed : ∀ slice ∈ slices, slice.isNull = true → slice.size = 0)
    (henough : remaining ≤ (slices.map ByteSpan.size).sum) (hhash : H.Absorbed hash before) :
    hashTail H nullByteHash byteCount slices remaining hash =
      H.hashBytes (before ++ (spansContent slices).take remaining) := by
  induction slices generalizing remaining hash before with
  | nil =>
      have hzero : remaining = 0 := Nat.le_zero.mp henough
      rw [hashTail, if_pos hzero, hhash.finish, hzero, List.take_zero, List.append_nil]
  | cons slice rest ih =>
      rw [hashTail]
      by_cases hzero : remaining = 0
      · rw [if_pos hzero, hhash.finish, hzero, List.take_zero, List.append_nil]
      · have hslice := hpointed slice (by simp)
        rw [List.map_cons, List.sum_cons] at henough
        rw [if_neg hzero, if_neg (by rintro ⟨hsize, hnull⟩; have := hslice hnull; omega),
          ih (fun s hs => hpointed s (List.mem_cons_of_mem _ hs)) (by omega)
            (hhash.append (slice.first (min slice.size remaining))),
          take_spansContent hslice, List.append_assoc]

theorem hashSlices_eq {byteCount : UInt64} {slices : List ByteSpan} {remaining : Nat}
    {first : Option (List UInt8)}
    (hpointed : ∀ slice ∈ slices, slice.isNull = true → slice.size = 0)
    (henough : remaining ≤ (slices.map ByteSpan.size).sum) :
    hashSlices H nullByteHash byteCount slices remaining first =
      H.hashBytes (first.getD [] ++ (spansContent slices).take remaining) := by
  induction slices generalizing remaining first with
  | nil =>
      have hzero : remaining = 0 := Nat.le_zero.mp henough
      rw [hashSlices, hashFirst, if_pos hzero, hzero, List.take_zero, List.append_nil]
  | cons slice rest ih =>
      have hslice := hpointed slice (by simp)
      have hrest := fun s hs => hpointed s (List.mem_cons_of_mem slice hs)
      rw [List.map_cons, List.sum_cons] at henough
      rw [hashSlices.eq_def]
      dsimp only
      rw [if_neg (by rintro ⟨hsize, hnull⟩; have := hslice hnull; omega),
        take_spansContent hslice]
      by_cases hsize : min slice.size remaining = 0
      · have hnone : slice.first (min slice.size remaining) = [] := by
          rw [hsize, ByteSpan.first_eq, List.take_zero]
        rw [if_pos hsize, hnone, List.nil_append]
        by_cases hdone : remaining - min slice.size remaining = 0
        · rw [if_pos hdone, hashFirst, if_pos hdone, hdone, List.take_zero, List.append_nil]
        · rw [if_neg hdone, ih hrest (by omega)]
      · rw [if_neg hsize]
        cases first with
        | none =>
            by_cases hdone : remaining - min slice.size remaining = 0
            · simp only [if_pos hdone]
              rw [hashFirst, if_pos hdone, hdone, List.take_zero, List.append_nil]
              rfl
            · simp only [if_neg hdone]
              rw [ih hrest (by omega)]
              rfl
        | some bytes =>
            have hhash := (ByteHasher.absorbed_start.append bytes).append
              (slice.first (min slice.size remaining)) (H := H)
            simp only
            rw [hashTail_eq hrest (by omega) hhash, List.nil_append, List.append_assoc]
            rfl

/-- **The hash of a source is the hash of its bytes**, when `HashIngress` may look at them. -/
theorem hashIngress_eq {source : RawByteSource} (h : source.WellFormed)
    (hcallable : source.callable = true) (hslices : source.slices ≠ [])
    (hadmitted : source.byteCount ≤ source.admittedBytes) :
    hashIngress H nullByteHash source = H.hashBytes source.content := by
  unfold hashIngress
  by_cases hzero : source.byteCount = 0
  · rw [if_pos hzero, RawByteSource.content, hzero]
    rfl
  · have hgood : ¬ (source.callable = false ∨ source.slices = [] ∨
        source.byteCount > source.admittedBytes) := by
      rintro (hc | hs | ha)
      · rw [hcallable] at hc
        cases hc
      · exact hslices hs
      · exact absurd hadmitted (UInt64.not_le.mpr ha)
    rw [if_neg hzero, if_neg hgood, hashSlices_eq h.pointed h.enough]
    rfl

end Hashed

/-! ### What the ring holds -/

/-- A capture as the ring keeps it. -/
structure Captured where
  eventSequence : UInt64
  kind : EventKind
  content : List UInt8
  deriving DecidableEq, Repr

/-- The bytes of captures, one behind the other. -/
def contents (entries : List Captured) : List UInt8 := entries.flatMap Captured.content

@[simp] theorem contents_nil : contents [] = [] := rfl

theorem contents_cons (entry : Captured) (entries : List Captured) :
    contents (entry :: entries) = entry.content ++ contents entries := rfl

theorem contents_append (entries more : List Captured) :
    contents (entries ++ more) = contents entries ++ contents more := List.flatMap_append

/-- The records of captures whose bytes stand around a ring of bytes from `offset` on. -/
def ringRecords (H : ByteHasher) (capacity : Nat) : Nat → List Captured → List RingRecord
  | _, [] => []
  | offset, entry :: entries =>
      { eventSequence := entry.eventSequence
        kind := entry.kind
        byteOffset := offset
        byteCount := UInt64.ofNat entry.content.length
        payloadHash := H.hashBytes entry.content } ::
      ringRecords H capacity ((offset + entry.content.length) % capacity) entries

section Records

variable {H : ByteHasher}

theorem length_ringRecords (capacity offset : Nat) (entries : List Captured) :
    (ringRecords H capacity offset entries).length = entries.length := by
  induction entries generalizing offset with
  | nil => rfl
  | cons entry entries ih => rw [ringRecords, List.length_cons, ih, List.length_cons]

theorem ringRecords_append {capacity offset : Nat} (hoffset : offset < capacity)
    (entries more : List Captured) :
    ringRecords H capacity offset (entries ++ more) =
      ringRecords H capacity offset entries ++
        ringRecords H capacity ((offset + (contents entries).length) % capacity) more := by
  induction entries generalizing offset with
  | nil =>
      rw [contents_nil, List.length_nil, Nat.add_zero, Nat.mod_eq_of_lt hoffset]
      rfl
  | cons first entries ih =>
      have hnext : (offset + first.content.length) % capacity < capacity :=
        Nat.mod_lt _ (Nat.lt_of_le_of_lt (Nat.zero_le _) hoffset)
      rw [List.cons_append, ringRecords, ih hnext, contents_cons, List.length_append,
        Nat.mod_add_mod, Nat.add_assoc]
      rfl

/-- The ring holds these captures, from the oldest to the newest. -/
structure Holds (H : ByteHasher) (ring : RawCaptureRing) (entries : List Captured) : Prop where
  bytes_lt : ring.bytes.length < 2 ^ 64
  records_lt : ring.records.length < 2 ^ 64
  byteHead_lt : ring.byteHead < ring.bytes.length
  recordHead_lt : ring.recordHead < ring.records.length
  recordCount_eq : ring.recordCount = entries.length
  byteSize_eq : ring.byteSize = (contents entries).length
  bytes_stored : Stored ring.bytes ring.byteHead (contents entries)
  records_stored : Stored ring.records ring.recordHead
    (ringRecords H ring.bytes.length ring.byteHead entries)

namespace Holds

variable {ring : RawCaptureRing} {entries : List Captured}

theorem length_le (h : Holds H ring entries) : entries.length ≤ ring.records.length := by
  have hle := h.records_stored.length_le
  rwa [length_ringRecords] at hle

theorem contents_le (h : Holds H ring entries) :
    (contents entries).length ≤ ring.bytes.length := h.bytes_stored.length_le

theorem enabled (h : Holds H ring entries) : ring.enabled = true := by
  have hbytes : ring.bytes ≠ [] := fun hnil => by
    have := h.byteHead_lt
    rw [hnil] at this
    exact Nat.not_lt_zero _ this
  have hrecords : ring.records ≠ [] := fun hnil => by
    have := h.recordHead_lt
    rw [hnil] at this
    exact Nat.not_lt_zero _ this
  rw [RawCaptureRing.enabled, decide_eq_true hbytes, decide_eq_true hrecords]
  rfl

/-- A ring that only counted something more holds the same captures. -/
theorem counters (h : Holds H ring entries) (evicted dropped : UInt64) :
    Holds H { ring with evictedRecords := evicted, droppedRecords := dropped } entries :=
  ⟨h.bytes_lt, h.records_lt, h.byteHead_lt, h.recordHead_lt, h.recordCount_eq, h.byteSize_eq,
    h.bytes_stored, h.records_stored⟩

end Holds

theorem make_holds {config : Diagnostic} (hbytes : config.windowBytes ≠ 0)
    (hrecords : config.windowRecords ≠ 0) : Holds H (RawCaptureRing.make config) [] := by
  have hb : config.windowBytes.toNat ≠ 0 := fun h => hbytes (UInt64.toNat_inj.mp h)
  have hr : config.windowRecords.toNat ≠ 0 := fun h => hrecords (UInt64.toNat_inj.mp h)
  have hmake : RawCaptureRing.make config =
      { bytes := List.replicate config.windowBytes.toNat 0
        records := List.replicate config.windowRecords.toNat {} } := by
    rw [RawCaptureRing.make, if_neg (by rintro (h | h); exacts [hbytes h, hrecords h])]
  rw [hmake]
  refine ⟨?_, ?_, ?_, ?_, rfl, rfl, Stored.nil, Stored.nil⟩
  · show (List.replicate _ _).length < _
    rw [List.length_replicate]
    exact config.windowBytes.toNat_lt
  · show (List.replicate _ _).length < _
    rw [List.length_replicate]
    exact config.windowRecords.toNat_lt
  · show 0 < (List.replicate _ _).length
    rw [List.length_replicate]
    omega
  · show 0 < (List.replicate _ _).length
    rw [List.length_replicate]
    omega

/-! ### Evictions -/

/-- **The oldest capture is evicted.** -/
theorem evictOldest_spec {ring : RawCaptureRing} {entry : Captured} {entries : List Captured}
    (h : Holds H ring (entry :: entries)) :
    ∃ ring', ring.evictOldest = some ring' ∧ Holds H ring' entries ∧ ring'.bytes = ring.bytes ∧
      ring'.records = ring.records ∧ ring'.droppedRecords = ring.droppedRecords ∧
      ring'.evictedRecords = counterSaturatingAdd ring.evictedRecords 1 := by
  have hcount : ring.recordCount ≠ 0 := by
    rw [h.recordCount_eq]
    exact Nat.succ_ne_zero _
  have hrecord := h.records_stored.head h.recordHead_lt
  have hcontents := h.contents_le
  rw [contents_cons, List.length_append] at hcontents
  have hsize : (UInt64.ofNat entry.content.length).toNat = entry.content.length :=
    UInt64.toNat_ofNat_of_lt' (by
      show _ < 18446744073709551616
      have := h.bytes_lt
      omega)
  have hbytes : ring.bytes ≠ [] := fun hnil => by
    have := h.byteHead_lt
    rw [hnil] at this
    exact Nat.not_lt_zero _ this
  have hhead : wrap ring.byteHead entry.content.length ring.bytes.length =
      (ring.byteHead + entry.content.length) % ring.bytes.length :=
    wrap_eq_mod h.byteHead_lt (by omega)
  have hslot : wrap ring.recordHead 1 ring.records.length =
      (ring.recordHead + 1) % ring.records.length :=
    wrap_eq_mod h.recordHead_lt (Nat.lt_of_le_of_lt (Nat.zero_le _) h.recordHead_lt)
  have hevict : ring.evictOldest = some { ring with
      byteHead := (ring.byteHead + entry.content.length) % ring.bytes.length
      byteSize := ring.byteSize - entry.content.length
      recordHead := (ring.recordHead + 1) % ring.records.length
      recordCount := ring.recordCount - 1
      evictedRecords := counterSaturatingAdd ring.evictedRecords 1 } := by
    rw [RawCaptureRing.evictOldest, if_neg hcount, hrecord, ← hhead, ← hslot]
    show some _ = some _
    simp only [if_neg hbytes, hsize]
  refine ⟨_, hevict, ?_, rfl, rfl, rfl, by dsimp only⟩
  refine ⟨h.bytes_lt, h.records_lt, ?_, ?_, ?_, ?_, ?_, ?_⟩
  · exact Nat.mod_lt _ (Nat.lt_of_le_of_lt (Nat.zero_le _) h.byteHead_lt)
  · exact Nat.mod_lt _ (Nat.lt_of_le_of_lt (Nat.zero_le _) h.recordHead_lt)
  · show ring.recordCount - 1 = entries.length
    rw [h.recordCount_eq, List.length_cons, Nat.add_sub_cancel]
  · show ring.byteSize - entry.content.length = (contents entries).length
    rw [h.byteSize_eq, contents_cons, List.length_append, Nat.add_sub_cancel_left]
  · have hstored := h.bytes_stored
    rw [contents_cons] at hstored
    exact hstored.right
  · have hstored := h.records_stored
    rw [ringRecords] at hstored
    exact @Stored.right _ _ _ [_] _ hstored

/-- The captures leave no room for a capture of this size. -/
def NoRoom (windowBytes windowRecords : Nat) (entries : List Captured) (byteCount : UInt64) :
    Prop :=
  windowRecords ≤ entries.length ∨ windowBytes < (contents entries).length + byteCount.toNat

theorem Holds.lacksRoom_iff {ring : RawCaptureRing} {entries : List Captured}
    (h : Holds H ring entries) (byteCount : UInt64) :
    ring.LacksRoom byteCount ↔
      NoRoom ring.bytes.length ring.records.length entries byteCount := by
  have hle := h.length_le
  have hcontents := h.contents_le
  rw [RawCaptureRing.LacksRoom, NoRoom, h.recordCount_eq, h.byteSize_eq]
  constructor
  · rintro (heq | hgt)
    · exact Or.inl heq.ge
    · exact Or.inr (by omega)
  · rintro (hge | hlt)
    · exact Or.inl (Nat.le_antisymm hle hge)
    · exact Or.inr (by omega)

/-- **Room is made by the fewest evictions that make it.** -/
theorem makeRoom_spec {ring : RawCaptureRing} {entries : List Captured} {byteCount : UInt64}
    (h : Holds H ring entries) (hfits : byteCount.toNat ≤ ring.bytes.length) :
    ∃ ring' evicted, RawCaptureRing.makeRoom byteCount entries.length ring = some ring' ∧
      Holds H ring' (entries.drop evicted) ∧ evicted ≤ entries.length ∧
      ¬ NoRoom ring.bytes.length ring.records.length (entries.drop evicted) byteCount ∧
      (∀ fewer, fewer < evicted →
        NoRoom ring.bytes.length ring.records.length (entries.drop fewer) byteCount) ∧
      ring'.bytes = ring.bytes ∧ ring'.records = ring.records ∧
      ring'.droppedRecords = ring.droppedRecords ∧
      ring'.evictedRecords.toNat = min (ring.evictedRecords.toNat + evicted) (2 ^ 64 - 1) := by
  have hcounter : ring.evictedRecords.toNat < 2 ^ 64 := ring.evictedRecords.toNat_lt
  induction entries generalizing ring with
  | nil =>
      have hroom : ¬ NoRoom ring.bytes.length ring.records.length [] byteCount := by
        rintro (hle | hlt)
        · exact absurd (Nat.lt_of_lt_of_le h.recordHead_lt hle) (Nat.not_lt_zero _)
        · rw [contents_nil, List.length_nil] at hlt
          omega
      refine ⟨ring, 0, ?_, h, Nat.le_refl _, hroom, ?_, rfl, rfl, rfl, by omega⟩
      · rw [List.length_nil, RawCaptureRing.makeRoom,
          if_neg (fun hlacks => hroom ((h.lacksRoom_iff byteCount).mp hlacks))]
      · intro fewer hfewer
        exact absurd hfewer (Nat.not_lt_zero _)
  | cons entry entries ih =>
      by_cases hroom : NoRoom ring.bytes.length ring.records.length (entry :: entries) byteCount
      · obtain ⟨ring₁, hevict, h₁, hbytes, hrecords, hdropped, hcount⟩ := evictOldest_spec h
        obtain ⟨ring₂, evicted, hmake, h₂, hle, hno, hfewer, hbytes₂, hrecords₂, hdropped₂,
            hcount₂⟩ :=
          ih h₁ (by rw [hbytes]; exact hfits) ring₁.evictedRecords.toNat_lt
        rw [hbytes, hrecords] at hno hfewer
        refine ⟨ring₂, evicted + 1, ?_, h₂, Nat.succ_le_succ hle, hno, ?_, hbytes₂.trans hbytes,
          hrecords₂.trans hrecords, hdropped₂.trans hdropped, ?_⟩
        · rw [List.length_cons, RawCaptureRing.makeRoom,
            if_pos ((h.lacksRoom_iff byteCount).mpr hroom), hevict]
          exact hmake
        · intro fewer hlt
          cases fewer with
          | zero => exact hroom
          | succ fewer => exact hfewer fewer (by omega)
        · rw [hcount₂, hcount, toNat_counterSaturatingAdd, UInt64.toNat_one]
          omega
      · refine ⟨ring, 0, ?_, h, Nat.zero_le _, hroom, ?_, rfl, rfl, rfl, by omega⟩
        · rw [List.length_cons, RawCaptureRing.makeRoom,
            if_neg (fun hlacks => hroom ((h.lacksRoom_iff byteCount).mp hlacks))]
        · intro fewer hfewer
          exact absurd hfewer (Nat.not_lt_zero _)

end Records

/-! ### Retaining -/

section Retain

variable {H : ByteHasher}

/-- The bytes of a slice are written around the ring of bytes, and hashed from there. -/
theorem retainSlice_spec {now : Retaining H} {slice before : List UInt8}
    (htail : now.tail < now.bytes.length) (hfits : slice.length ≤ now.bytes.length)
    (hhash : H.Absorbed now.hash before) :
    ∃ next, retainSlice H slice now = some next ∧
      WrittenAround now.bytes now.tail slice next.bytes ∧
      next.tail = (now.tail + slice.length) % now.bytes.length ∧
      H.Absorbed next.hash (before ++ slice) := by
  have hwrap := wrap_eq_mod htail hfits
  by_cases hone : slice.length ≤ now.bytes.length - now.tail
  · -- the slice ends before the last byte of the ring
    have hfirst : min slice.length (now.bytes.length - now.tail) = slice.length :=
      Nat.min_eq_left hone
    obtain ⟨bytes, hbytes⟩ : ∃ bytes, copyInto now.bytes now.tail slice = some bytes :=
      ⟨_, copyInto_of_le (by omega)⟩
    refine ⟨⟨bytes, wrap now.tail slice.length now.bytes.length, H.append now.hash slice⟩, ?_,
      writtenAround_of_copyInto (by omega) hbytes, hwrap, hhash.append slice⟩
    rw [retainSlice]
    dsimp only
    rw [hfirst, List.take_length, hbytes]
    show (extract bytes now.tail slice.length >>= _) = _
    rw [extract_of_copyInto hbytes]
    show (if slice.length ≠ slice.length then _ else _) = _
    rw [if_neg (not_not_intro rfl)]
    rfl
  · -- the rest of the slice goes to the start of the ring
    have hfirst : min slice.length (now.bytes.length - now.tail) =
        now.bytes.length - now.tail := Nat.min_eq_right (by omega)
    have htake : (slice.take (now.bytes.length - now.tail)).length =
        now.bytes.length - now.tail := by
      rw [List.length_take]
      omega
    obtain ⟨bytes, hbytes⟩ : ∃ bytes, copyInto now.bytes now.tail
        (slice.take (now.bytes.length - now.tail)) = some bytes :=
      ⟨_, copyInto_of_le (by omega)⟩
    have hlen := length_of_copyInto hbytes
    obtain ⟨bytes', hbytes'⟩ : ∃ bytes', copyInto bytes 0
        (slice.drop (now.bytes.length - now.tail)) = some bytes' :=
      ⟨_, copyInto_of_le (by rw [List.length_drop]; omega)⟩
    have hread := extract_of_copyInto hbytes
    have hread' := extract_of_copyInto hbytes'
    rw [htake] at hread
    rw [List.length_drop] at hread'
    have habsorbed := (hhash.append (slice.take (now.bytes.length - now.tail))).append
      (slice.drop (now.bytes.length - now.tail))
    rw [List.append_assoc, List.take_append_drop] at habsorbed
    refine ⟨⟨bytes', wrap now.tail slice.length now.bytes.length, _⟩, ?_,
      writtenAround_of_copyInto_twice (by omega) (by omega) hfits hbytes hbytes', hwrap, habsorbed⟩
    rw [retainSlice]
    dsimp only
    rw [hfirst, hbytes]
    show (extract bytes now.tail (now.bytes.length - now.tail) >>= _) = _
    rw [hread]
    show (if now.bytes.length - now.tail ≠ slice.length then _ else _) = _
    rw [if_pos (by omega), hbytes']
    show (extract bytes' 0 _ >>= _) = _
    rw [hread']
    rfl

/-- What the copying of a capture has done so far: its first bytes, `before`, stand behind those of
the captures that the ring holds. -/
structure Copied (H : ByteHasher) (capacity head : Nat) (held before : List UInt8)
    (now : Retaining H) : Prop where
  length_eq : now.bytes.length = capacity
  stored : Stored now.bytes head (held ++ before)
  tail_eq : now.tail = (head + (held ++ before).length) % capacity
  absorbed : H.Absorbed now.hash before

/-- One slice that fits. -/
theorem Copied.slice {capacity head : Nat} {held before : List UInt8} {now : Retaining H}
    (h : Copied H capacity head held before now) (slice : List UInt8)
    (hfits : (held ++ before).length + slice.length ≤ capacity) (hcapacity : 0 < capacity) :
    ∃ next, retainSlice H slice now = some next ∧
      Copied H capacity head held (before ++ slice) next := by
  have htail : now.tail < now.bytes.length := by
    rw [h.tail_eq, h.length_eq]
    exact Nat.mod_lt _ hcapacity
  obtain ⟨next, hnext, hwritten, htail', hhash⟩ :=
    retainSlice_spec htail (slice.length.le_add_left _ |>.trans hfits |>.trans_eq h.length_eq.symm)
      h.absorbed
  refine ⟨next, hnext, hwritten.length_eq.trans h.length_eq, ?_, ?_, hhash⟩
  · rw [← List.append_assoc]
    apply h.stored.write
    · rw [h.length_eq, ← h.tail_eq]
      exact hwritten
    · rw [h.length_eq]
      exact hfits
  · rw [htail', h.tail_eq, h.length_eq, Nat.mod_add_mod, ← List.append_assoc,
      @List.length_append _ (held ++ before) slice, Nat.add_assoc]

/-- **All slices of a capture that fits are copied.** -/
theorem retainSlices_spec {capacity head : Nat} {held before : List UInt8}
    {slices : List ByteSpan} {remaining : Nat} {now : Retaining H}
    (hpointed : ∀ slice ∈ slices, slice.isNull = true → slice.size = 0)
    (henough : remaining ≤ (slices.map ByteSpan.size).sum)
    (h : Copied H capacity head held before now)
    (hfits : (held ++ before).length + remaining ≤ capacity) (hcapacity : 0 < capacity) :
    ∃ next, retainSlices H slices remaining now = some (.inr (next, 0)) ∧
      Copied H capacity head held (before ++ (spansContent slices).take remaining) next := by
  induction slices generalizing remaining before now with
  | nil =>
      obtain rfl : remaining = 0 := Nat.le_zero.mp henough
      refine ⟨now, rfl, ?_⟩
      rw [List.take_zero, List.append_nil]
      exact h
  | cons slice rest ih =>
      have hslice := hpointed slice (by simp)
      have hrest := fun s hs => hpointed s (List.mem_cons_of_mem slice hs)
      rw [List.map_cons, List.sum_cons] at henough
      rw [retainSlices]
      by_cases hzero : remaining = 0
      · subst hzero
        refine ⟨now, by rw [if_pos rfl], ?_⟩
        rw [List.take_zero, List.append_nil]
        exact h
      · rw [if_neg hzero, take_spansContent hslice]
        dsimp only
        by_cases hsize : min slice.size remaining = 0
        · have hnone : slice.first (min slice.size remaining) = [] := by
            rw [hsize, ByteSpan.first_eq, List.take_zero]
          rw [if_pos hsize, hnone, List.nil_append, hsize, Nat.sub_zero]
          exact ih hrest (by omega) h hfits
        · have hnull : ¬ slice.isNull = true := fun hnull => by
            have := hslice hnull
            omega
          have hfirst : (slice.first (min slice.size remaining)).length =
              min slice.size remaining := by
            rw [ByteSpan.first_eq, List.length_take, ← ByteSpan.size_eq hslice]
            omega
          obtain ⟨next, hnext, hcopied⟩ := h.slice (slice.first (min slice.size remaining))
            (by omega) hcapacity
          rw [if_neg hsize, if_neg hnull, hnext]
          rw [← List.append_assoc]
          refine ih hrest (by omega) hcopied ?_
          rw [← List.append_assoc, List.length_append, hfirst]
          omega

/-- **A capture that is retained is put behind the captures that stay.** -/
theorem retain_spec (nullByteHash : UInt64 → UInt64) {ring : RawCaptureRing}
    {entries : List Captured} {source : RawByteSource} (h : Holds H ring entries)
    (hwell : source.WellFormed) (hfits : source.byteCount.toNat ≤ ring.bytes.length)
    (eventSequence : UInt64) (kind : EventKind) :
    ∃ ring' evicted,
      ring.retain H nullByteHash eventSequence kind source =
        some (H.hashBytes source.content, ring') ∧
      Holds H ring' (entries.drop evicted ++ [⟨eventSequence, kind, source.content⟩]) ∧
      evicted ≤ entries.length ∧
      (∀ fewer, fewer < evicted → NoRoom ring.bytes.length ring.records.length
        (entries.drop fewer) source.byteCount) ∧
      ring'.bytes.length = ring.bytes.length ∧ ring'.records.length = ring.records.length ∧
      ring'.droppedRecords = ring.droppedRecords ∧
      ring'.evictedRecords.toNat = min (ring.evictedRecords.toNat + evicted) (2 ^ 64 - 1) := by
  obtain ⟨ring₁, evicted, hmake, h₁, hle, hroom, hfewer, hbytes, hrecords, hdropped, hcounter⟩ :=
    makeRoom_spec h hfits
  have hlen := hwell.length_content
  have hcapacity : 0 < ring₁.bytes.length := Nat.lt_of_le_of_lt (Nat.zero_le _) h₁.byteHead_lt
  have hcount₁ : (entries.drop evicted).length < ring₁.records.length := by
    rw [hrecords]
    exact Nat.lt_of_not_le fun hfull => hroom (Or.inl hfull)
  have hsize₁ : (contents (entries.drop evicted)).length + source.byteCount.toNat ≤
      ring₁.bytes.length := by
    rw [hbytes]
    exact Nat.le_of_not_lt fun hover => hroom (Or.inr hover)
  have hoffset : wrap ring₁.byteHead ring₁.byteSize ring₁.bytes.length =
      (ring₁.byteHead + (contents (entries.drop evicted)).length) % ring₁.bytes.length := by
    rw [h₁.byteSize_eq]
    exact wrap_eq_mod h₁.byteHead_lt h₁.contents_le
  have hslot : wrap ring₁.recordHead ring₁.recordCount ring₁.records.length =
      (ring₁.recordHead + (entries.drop evicted).length) % ring₁.records.length := by
    rw [h₁.recordCount_eq]
    exact wrap_eq_mod h₁.recordHead_lt h₁.length_le
  have hstart : Copied H ring₁.bytes.length ring₁.byteHead (contents (entries.drop evicted)) []
      { bytes := ring₁.bytes
        tail := wrap ring₁.byteHead ring₁.byteSize ring₁.bytes.length
        hash := H.start } := by
    refine ⟨rfl, ?_, ?_, ByteHasher.absorbed_start⟩
    · rw [List.append_nil]
      exact h₁.bytes_stored
    · rw [List.append_nil]
      exact hoffset
  obtain ⟨next, hnext, hcopied⟩ := retainSlices_spec hwell.pointed hwell.enough hstart
    (by rw [List.append_nil]; exact hsize₁) hcapacity
  rw [List.nil_append] at hcopied
  have hslot_lt : wrap ring₁.recordHead ring₁.recordCount ring₁.records.length <
      ring₁.records.length := by
    rw [hslot]
    exact Nat.mod_lt _ (Nat.lt_of_le_of_lt (Nat.zero_le _) h₁.recordHead_lt)
  have hword : UInt64.ofNat source.content.length = source.byteCount := by
    rw [hlen, UInt64.ofNat_toNat]
  have hretain : ring.retain H nullByteHash eventSequence kind source =
      some (H.hashBytes source.content, { ring₁ with
        bytes := next.bytes
        records := ring₁.records.set (wrap ring₁.recordHead ring₁.recordCount ring₁.records.length)
          { eventSequence := eventSequence
            kind := kind
            byteOffset := wrap ring₁.byteHead ring₁.byteSize ring₁.bytes.length
            byteCount := source.byteCount
            payloadHash := H.hashBytes source.content }
        byteSize := ring₁.byteSize + source.byteCount.toNat
        recordCount := ring₁.recordCount + 1 }) := by
    rw [RawCaptureRing.retain, h.recordCount_eq, hmake]
    show (retainSlices H source.slices source.byteCount.toNat _ >>= _) = _
    rw [hnext]
    dsimp only [bind, Option.bind]
    rw [if_neg (not_not_intro rfl), if_pos hslot_lt, hcopied.absorbed.finish]
    rfl
  refine ⟨_, evicted, hretain, ?_, hle, hfewer, ?_, ?_, hdropped, hcounter⟩
  · refine ⟨?_, ?_, ?_, ?_, ?_, ?_, ?_, ?_⟩
    · show next.bytes.length < _
      rw [hcopied.length_eq]
      exact h₁.bytes_lt
    · show (ring₁.records.set _ _).length < _
      rw [List.length_set]
      exact h₁.records_lt
    · show ring₁.byteHead < next.bytes.length
      rw [hcopied.length_eq]
      exact h₁.byteHead_lt
    · show ring₁.recordHead < (ring₁.records.set _ _).length
      rw [List.length_set]
      exact h₁.recordHead_lt
    · show ring₁.recordCount + 1 = _
      rw [List.length_append, List.length_singleton, h₁.recordCount_eq]
    · show ring₁.byteSize + source.byteCount.toNat = _
      rw [contents_append, List.length_append, h₁.byteSize_eq, ← hlen, contents_cons, contents_nil,
        List.append_nil]
    · show Stored next.bytes ring₁.byteHead _
      rw [contents_append, contents_cons, contents_nil, List.append_nil]
      exact hcopied.stored
    · show Stored (ring₁.records.set _ _) ring₁.recordHead
        (ringRecords H next.bytes.length ring₁.byteHead _)
      rw [hcopied.length_eq, ringRecords_append h₁.byteHead_lt, ← hoffset, hslot]
      refine h₁.records_stored.write ?_ ?_
      · rw [length_ringRecords, ringRecords, ringRecords, hword]
        exact written_set (hslot ▸ hslot_lt)
      · rw [length_ringRecords, length_ringRecords]
        exact hcount₁
  · exact hcopied.length_eq.trans (congrArg List.length hbytes)
  · show (ring₁.records.set _ _).length = _
    rw [List.length_set, hrecords]

end Retain

end RunD.RawCapture
