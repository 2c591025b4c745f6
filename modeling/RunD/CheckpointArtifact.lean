/-
The artifact of a checkpoint, written and read.

An artifact holds what the constructor of the data is given, and of what it
computes only two hashes.  The reader hands the fields to the constructor
again and compares.  So a checkpoint is read back exactly when its data are
what the constructor makes of them (`Constructed.remake`), which holds for
everything a program can hold, and the words of an artifact are determined by
the checkpoint it loads as.
-/
import RunD.ArtifactWriter
import RunD.Checkpoint

namespace RunD

/-! ### Limits -/

/-- `replay::Limits`. -/
structure ReplayLimits where
  maxBytes : UInt64 := 2 * 1024 * 1024 * 1024
  maxEntries : UInt64 := 4 * 1024 * 1024
  maxPayloadBytes : UInt64 := 1024 * 1024 * 1024
  maxStateBytes : UInt64 := 64 * 1024 * 1024
  deriving DecidableEq, Repr

/-! ### The words of an artifact -/

/-- What stands between the header and the state. -/
structure CheckpointFields where
  previousSegmentCount : UInt64
  previousInputPosition : UInt64
  previousPrefixHash : UInt64
  previousTranscriptPrefixHash : UInt64
  segmentRecordHash : UInt64
  segmentInputCount : UInt64
  segmentInputHash : UInt64
  segmentTranscriptHash : UInt64
  stateSchema : UInt64
  stateSize : UInt64
  stateHash : UInt64
  checkpointHash : UInt64
  deriving DecidableEq, Repr

namespace CheckpointFields

def encode (fields : CheckpointFields) : List UInt8 :=
  encodeVaruint fields.previousSegmentCount ++ (encodeVaruint fields.previousInputPosition ++
    (encodeFixed64 fields.previousPrefixHash ++ (encodeFixed64 fields.previousTranscriptPrefixHash ++
      (encodeFixed64 fields.segmentRecordHash ++ (encodeVaruint fields.segmentInputCount ++
        (encodeFixed64 fields.segmentInputHash ++ (encodeFixed64 fields.segmentTranscriptHash ++
          (encodeVaruint fields.stateSchema ++ (encodeVaruint fields.stateSize ++
            (encodeFixed64 fields.stateHash ++ encodeFixed64 fields.checkpointHash))))))))))

/-- The reads in the condition of `Checkpoint::load`. -/
def read : Reading ReplayCode CheckpointFields := do
  let previousSegmentCount ← Reading.readVaruint .checkpointBadField
  let previousInputPosition ← Reading.readVaruint .checkpointBadField
  let previousPrefixHash ← Reading.readFixed64 .checkpointBadField
  let previousTranscriptPrefixHash ← Reading.readFixed64 .checkpointBadField
  let segmentRecordHash ← Reading.readFixed64 .checkpointBadField
  let segmentInputCount ← Reading.readVaruint .checkpointBadField
  let segmentInputHash ← Reading.readFixed64 .checkpointBadField
  let segmentTranscriptHash ← Reading.readFixed64 .checkpointBadField
  let stateSchema ← Reading.readVaruint .checkpointBadField
  let stateSize ← Reading.readVaruint .checkpointBadField
  let stateHash ← Reading.readFixed64 .checkpointBadField
  let checkpointHash ← Reading.readFixed64 .checkpointBadField
  pure { previousSegmentCount, previousInputPosition, previousPrefixHash,
         previousTranscriptPrefixHash, segmentRecordHash, segmentInputCount, segmentInputHash,
         segmentTranscriptHash, stateSchema, stateSize, stateHash, checkpointHash }

/-- The data the constructor makes of the fields and the state it adopts. -/
def construct (fields : CheckpointFields) (state : List UInt8) : CheckpointData :=
  .make
    { segmentCount := fields.previousSegmentCount
      inputPosition := fields.previousInputPosition
      prefixHash := fields.previousPrefixHash
      transcriptPrefixHash := fields.previousTranscriptPrefixHash }
    { replayHash := fields.segmentRecordHash
      inputCount := fields.segmentInputCount
      inputHash := fields.segmentInputHash
      transcriptHash := fields.segmentTranscriptHash }
    fields.stateSchema state

end CheckpointFields

/-- The fields that `Checkpoint::persist` writes of the data. -/
def CheckpointData.fields (data : CheckpointData) : CheckpointFields where
  previousSegmentCount := data.previousSegmentCount
  previousInputPosition := data.previousInputPosition
  previousPrefixHash := data.previousPrefixHash
  previousTranscriptPrefixHash := data.previousTranscriptPrefixHash
  segmentRecordHash := data.segmentRecordHash
  segmentInputCount := data.segmentInputCount
  segmentInputHash := data.segmentInputHash
  segmentTranscriptHash := data.segmentTranscriptHash
  stateSchema := data.stateSchema
  stateSize := data.stateSize
  stateHash := data.stateHash
  checkpointHash := data.checkpointHash

namespace Checkpoint

/-! ### Writing -/

/-- What `Checkpoint::persist` writes of data in order. -/
def writeData (data : CheckpointData) : Writing Unit := do
  Writing.header .checkpoint
  Writing.varuint data.previousSegmentCount
  Writing.varuint data.previousInputPosition
  Writing.fixed64 data.previousPrefixHash
  Writing.fixed64 data.previousTranscriptPrefixHash
  Writing.fixed64 data.segmentRecordHash
  Writing.varuint data.segmentInputCount
  Writing.fixed64 data.segmentInputHash
  Writing.fixed64 data.segmentTranscriptHash
  Writing.varuint data.stateSchema
  Writing.varuint data.stateSize
  Writing.fixed64 data.stateHash
  Writing.fixed64 data.checkpointHash
  Writing.raw data.state

/-- `Checkpoint::persist`: the bytes the sink was given. -/
def persist (sink : Sink) (checkpoint : Checkpoint) : Checked ReplayCode (List UInt8) := do
  require (checkpoint.ok = true) checkpoint.code
  match checkpoint.data with
  | none => Except.error .outOfBounds
  | some data => Writing.save sink (writeData data)

/-! ### Reading -/

/-- The check of the announced size against the limit and against what is left. -/
def requireState (limits : ReplayLimits) (stateSize : UInt64) : Reading ReplayCode Unit := fun r => do
  require (¬ stateSize > limits.maxStateBytes ∧ stateSize.toNat = r.remaining)
    .checkpointStateCapacityExceeded
  pure ((), r)

/-- What `Checkpoint::load` compares after it has constructed the candidate. -/
def accept (fields : CheckpointFields) (candidate : CheckpointData) :
    Checked ReplayCode Checkpoint := do
  require (candidate.stateSchema = fields.stateSchema ∧ candidate.stateSize = fields.stateSize)
    .checkpointStateSizeInvalid
  require (candidate.stateHash = fields.stateHash) .checkpointStateHashInvalid
  require (candidate.valid = true) .checkpointChainInvalid
  require (candidate.checkpointHash = fields.checkpointHash) .checkpointHashInvalid
  pure { data := some candidate }

/-- `Checkpoint::load`.  A vector that is moved keeps its allocation, so the adoption succeeds. -/
def load (limits : ReplayLimits) (artifact : List UInt8) : Checked ReplayCode Checkpoint := do
  require (¬ artifact.length > limits.maxBytes.toNat) .checkpointEncodedCapacityExceeded
  require (¬ limits.maxEntries < 1) .checkpointEntryCapacityExceeded
  let body : Reading ReplayCode Checkpoint := do
    Reading.readHeader .checkpoint .checkpointBadHeader
    let fields ← CheckpointFields.read
    Reading.lift (require (fields.stateSchema ≠ 0) .stateSchemaInvalid)
    requireState limits fields.stateSize
    let state ← Reading.slice .checkpointBadField fields.stateSize.toNat
    Reading.requireDone .checkpointBadField
    Reading.lift (accept fields (fields.construct state))
  let (checkpoint, _) ← body { bytes := artifact }
  pure checkpoint

end Checkpoint

/-! ### What the constructor makes -/

namespace CheckpointData

/-- Data are what the constructor made; a state is an object and shorter than half the address
space. -/
structure Constructed (data : CheckpointData) : Prop where
  made : ∃ previous record schema state, data = make previous record schema state
  addressable : data.state.length < 2 ^ 63

section Make

variable (previous : CheckpointData) (record : RecordData) (schema : UInt64) (state : List UInt8)

/-- What the constructor is given it keeps. -/
theorem fields_make :
    (make previous record schema state).state = state ∧
      (make previous record schema state).fields =
        { previousSegmentCount := previous.segmentCount
          previousInputPosition := previous.inputPosition
          previousPrefixHash := previous.prefixHash
          previousTranscriptPrefixHash := previous.transcriptPrefixHash
          segmentRecordHash := record.replayHash
          segmentInputCount := record.inputCount
          segmentInputHash := record.inputHash
          segmentTranscriptHash := record.transcriptHash
          stateSchema := schema
          stateSize := UInt64.ofNat state.length
          stateHash := hashState schema state
          checkpointHash := (make previous record schema state).checkpointHash } := by
  generalize hmade : make previous record schema state = data
  rw [make] at hmade
  split_ifs at hmade with hcount hposition
  · subst hmade
    exact ⟨rfl, rfl⟩
  · subst hmade
    exact ⟨rfl, rfl⟩
  · subst hmade
    exact ⟨rfl, rfl⟩

end Make

/-- **The constructor makes the same data of the fields again.** -/
theorem Constructed.remake {data : CheckpointData} (h : data.Constructed) :
    data.fields.construct data.state = data := by
  obtain ⟨previous, record, schema, state, rfl⟩ := h.made
  obtain ⟨hstate, hfields⟩ := fields_make previous record schema state
  rw [hstate, hfields, CheckpointFields.construct, make, make]

theorem Constructed.stateSize_eq {data : CheckpointData} (h : data.Constructed) :
    data.stateSize.toNat = data.state.length := by
  have hlen := h.addressable
  obtain ⟨previous, record, schema, state, rfl⟩ := h.made
  obtain ⟨hstate, hfields⟩ := fields_make previous record schema state
  have hsize := congrArg CheckpointFields.stateSize hfields
  rw [hstate] at hlen ⊢
  show (CheckpointData.fields _).stateSize.toNat = _
  rw [hsize, UInt64.toNat_ofNat']
  exact Nat.mod_eq_of_lt (by omega)

/-- What `valid` says, with the counters as numbers. -/
structure Chained (data : CheckpointData) : Prop where
  schema : data.stateSchema ≠ 0
  size : data.stateSize = UInt64.ofNat data.state.length
  segments : data.segmentCount.toNat = data.previousSegmentCount.toNat + 1
  position : data.inputPosition.toNat =
    data.previousInputPosition.toNat + data.segmentInputCount.toNat
  genesis : data.previousSegmentCount = 0 → data.previousInputPosition = 0 ∧
    data.previousPrefixHash = 0 ∧ data.previousTranscriptPrefixHash = 0
  boundary : data.boundaryHash = data.hashBoundary
  chain : data.prefixHash = data.hashPrefix data.boundaryHash
  transcript : data.transcriptPrefixHash = data.hashTranscript
  checkpoint : data.checkpointHash = data.hashCheckpoint

theorem valid_iff {data : CheckpointData} : data.valid = true ↔ data.Chained := by
  simp only [valid, Bool.and_eq_true, bne_iff_ne, ne_eq, beq_iff_eq, Bool.not_eq_true',
    Bool.and_eq_false_iff, Bool.or_eq_false_iff, bne_eq_false_iff_eq, beq_eq_false_iff_ne]
  constructor
  · rintro ⟨⟨⟨⟨⟨⟨⟨⟨⟨⟨⟨-, hschema⟩, hsize⟩, hfirst⟩, hsegments⟩, hsecond⟩, hposition⟩, hgenesis⟩,
      hboundary⟩, hprior⟩, htranscript⟩, hcheckpoint⟩
    refine ⟨hschema, hsize, ?_, ?_, ?_, hboundary, ?_, htranscript, hcheckpoint⟩
    · rw [← hsegments, toNat_add_of_fits (checkedAdd_iff.mp hfirst)]
      rfl
    · rw [← hposition, toNat_add_of_fits (checkedAdd_iff.mp hsecond)]
    · intro hzero
      rcases hgenesis with hne | ⟨⟨hposition, hprior⟩, htranscripts⟩
      · exact absurd hzero hne
      · exact ⟨hposition, hprior, htranscripts⟩
    · rw [hboundary]
      exact hprior
  · rintro ⟨hschema, hsize, hsegments, hposition, hgenesis, hboundary, hprior, htranscript,
      hcheckpoint⟩
    have hfirst : data.previousSegmentCount.toNat + (1 : UInt64).toNat < 2 ^ 64 := by
      have := data.segmentCount.toNat_lt
      show _ + 1 < _
      omega
    have hsecond : data.previousInputPosition.toNat + data.segmentInputCount.toNat < 2 ^ 64 := by
      have := data.inputPosition.toNat_lt
      omega
    refine ⟨⟨⟨⟨⟨⟨⟨⟨⟨⟨⟨?_, hschema⟩, hsize⟩, checkedAdd_iff.mpr hfirst⟩, ?_⟩,
      checkedAdd_iff.mpr hsecond⟩, ?_⟩, ?_⟩, hboundary⟩, ?_⟩, htranscript⟩, hcheckpoint⟩
    · intro hzero
      rw [hzero] at hsegments
      exact absurd hsegments.symm (Nat.succ_ne_zero _)
    · rw [← UInt64.toNat_inj, toNat_add_of_fits hfirst, hsegments]
      rfl
    · rw [← UInt64.toNat_inj, toNat_add_of_fits hsecond, hposition]
    · by_cases hzero : data.previousSegmentCount = 0
      · obtain ⟨hposition, hprior, htranscripts⟩ := hgenesis hzero
        exact Or.inr ⟨⟨hposition, hprior⟩, htranscripts⟩
      · exact Or.inl hzero
    · rw [← hboundary]
      exact hprior

section Chain

variable (data : CheckpointData)

@[simp] theorem segmentCount_chain : data.chain.segmentCount = data.segmentCount := by rw [chain]

@[simp] theorem segmentInputCount_chain :
    data.chain.segmentInputCount = data.segmentInputCount := by
  rw [chain]

@[simp] theorem inputPosition_chain : data.chain.inputPosition = data.inputPosition := by rw [chain]

@[simp] theorem previousSegmentCount_chain :
    data.chain.previousSegmentCount = data.previousSegmentCount := by
  rw [chain]

@[simp] theorem previousInputPosition_chain :
    data.chain.previousInputPosition = data.previousInputPosition := by
  rw [chain]

theorem boundaryHash_chain : data.chain.boundaryHash = data.hashBoundary := by rw [chain]

theorem prefixHash_chain : data.chain.prefixHash = data.hashPrefix data.hashBoundary := by rw [chain]

theorem transcriptPrefixHash_chain : data.chain.transcriptPrefixHash = data.hashTranscript := by
  rw [chain]

theorem hashBoundary_chain : data.chain.hashBoundary = data.hashBoundary := by
  have hrecord : data.chain.segmentRecordHash = data.segmentRecordHash := by rw [chain]
  have hinput : data.chain.segmentInputHash = data.segmentInputHash := by rw [chain]
  have htranscript : data.chain.segmentTranscriptHash = data.segmentTranscriptHash := by rw [chain]
  rw [hashBoundary, hashBoundary, segmentCount_chain, segmentInputCount_chain, hrecord, hinput,
    htranscript]

theorem hashPrefix_chain (boundary : UInt64) :
    data.chain.hashPrefix boundary = data.hashPrefix boundary := by
  have hprevious : data.chain.previousPrefixHash = data.previousPrefixHash := by rw [chain]
  rw [hashPrefix, hashPrefix, segmentCount_chain, hprevious]

theorem hashTranscript_chain : data.chain.hashTranscript = data.hashTranscript := by
  have hprevious : data.chain.previousTranscriptPrefixHash = data.previousTranscriptPrefixHash := by
    rw [chain]
  have hinput : data.chain.segmentInputHash = data.segmentInputHash := by rw [chain]
  have htranscript : data.chain.segmentTranscriptHash = data.segmentTranscriptHash := by rw [chain]
  rw [hashTranscript, hashTranscript, segmentInputCount_chain, inputPosition_chain,
    previousInputPosition_chain, hprevious, hinput, htranscript]

/-- The last hash is taken of the other ones, so it does not see itself. -/
theorem hashCheckpoint_rehash (hash : UInt64) :
    CheckpointData.hashCheckpoint { data with checkpointHash := hash } = data.hashCheckpoint := by
  rw [hashCheckpoint, hashCheckpoint]

/-- Chained data are in order when the counters are. -/
theorem chained_chain (hschema : data.stateSchema ≠ 0)
    (hsize : data.stateSize = UInt64.ofNat data.state.length)
    (hsegments : data.segmentCount.toNat = data.previousSegmentCount.toNat + 1)
    (hposition : data.inputPosition.toNat =
      data.previousInputPosition.toNat + data.segmentInputCount.toNat)
    (hgenesis : data.previousSegmentCount = 0 → data.previousInputPosition = 0 ∧
      data.previousPrefixHash = 0 ∧ data.previousTranscriptPrefixHash = 0) :
    data.chain.Chained where
  schema := by
    rw [chain]
    exact hschema
  size := by
    rw [chain]
    exact hsize
  segments := by rw [segmentCount_chain, previousSegmentCount_chain, hsegments]
  position := by
    rw [inputPosition_chain, previousInputPosition_chain, segmentInputCount_chain, hposition]
  genesis := by
    rw [chain]
    exact hgenesis
  boundary := by rw [boundaryHash_chain, hashBoundary_chain]
  chain := by rw [prefixHash_chain, boundaryHash_chain, hashPrefix_chain]
  transcript := by rw [transcriptPrefixHash_chain, hashTranscript_chain]
  checkpoint := by
    rw [CheckpointData.chain]
    exact (hashCheckpoint_rehash _ _).symm

end Chain

/-- Data whose counters did not overflow are in order. -/
theorem valid_make {previous : CheckpointData} {record : RecordData} {schema : UInt64}
    {state : List UInt8} (hschema : schema ≠ 0)
    (hcount : checkedAdd previous.segmentCount 1 = true)
    (hposition : checkedAdd previous.inputPosition record.inputCount = true)
    (hgenesis : previous.segmentCount = 0 → previous.inputPosition = 0 ∧
      previous.prefixHash = 0 ∧ previous.transcriptPrefixHash = 0) :
    (make previous record schema state).valid = true := by
  rw [valid_iff, make, if_neg (by rw [hcount]; exact Bool.noConfusion),
    if_neg (by rw [hposition]; exact Bool.noConfusion)]
  generalize hashState schema state = stateHash
  refine chained_chain _ hschema rfl ?_ ?_ hgenesis
  · exact toNat_add_of_fits (checkedAdd_iff.mp hcount)
  · exact toNat_add_of_fits (checkedAdd_iff.mp hposition)

end CheckpointData

/-! ### The bytes of an artifact -/

namespace CheckpointFields

theorem fields_construct (fields : CheckpointFields) (state : List UInt8) :
    (fields.construct state).state = state ∧
      (fields.construct state).fields =
        { fields with
          stateSize := UInt64.ofNat state.length
          stateHash := hashState fields.stateSchema state
          checkpointHash := (fields.construct state).checkpointHash } :=
  CheckpointData.fields_make _ _ _ _

theorem reads_read (fields : CheckpointFields) : Reads read fields.encode fields := by
  refine (reads_readVaruint _ _).bind ?_
  refine (reads_readVaruint _ _).bind ?_
  refine (reads_readFixed64 _ _).bind ?_
  refine (reads_readFixed64 _ _).bind ?_
  refine (reads_readFixed64 _ _).bind ?_
  refine (reads_readVaruint _ _).bind ?_
  refine (reads_readFixed64 _ _).bind ?_
  refine (reads_readFixed64 _ _).bind ?_
  refine (reads_readVaruint _ _).bind ?_
  refine (reads_readVaruint _ _).bind ?_
  refine (reads_readFixed64 _ _).bind ?_
  rw [← List.append_nil (encodeFixed64 fields.checkpointHash)]
  exact (reads_readFixed64 _ _).bind (reads_pure _)

theorem consumes_read : Consumes read fun fields code => code = fields.encode := by
  refine (consumes_readVaruint _).bind fun previousSegmentCount c₁ h₁ => ?_
  refine (consumes_readVaruint _).bind fun previousInputPosition c₂ h₂ => ?_
  refine (consumes_readFixed64 _).bind fun previousPrefixHash c₃ h₃ => ?_
  refine (consumes_readFixed64 _).bind fun previousTranscriptPrefixHash c₄ h₄ => ?_
  refine (consumes_readFixed64 _).bind fun segmentRecordHash c₅ h₅ => ?_
  refine (consumes_readVaruint _).bind fun segmentInputCount c₆ h₆ => ?_
  refine (consumes_readFixed64 _).bind fun segmentInputHash c₇ h₇ => ?_
  refine (consumes_readFixed64 _).bind fun segmentTranscriptHash c₈ h₈ => ?_
  refine (consumes_readVaruint _).bind fun stateSchema c₉ h₉ => ?_
  refine (consumes_readVaruint _).bind fun stateSize c₁₀ h₁₀ => ?_
  refine (consumes_readFixed64 _).bind fun stateHash c₁₁ h₁₁ => ?_
  refine (consumes_readFixed64 _).bind fun checkpointHash c₁₂ h₁₂ => ?_
  refine consumes_pure ?_
  rw [h₁, h₂, h₃, h₄, h₅, h₆, h₇, h₈, h₉, h₁₀, h₁₁, h₁₂, List.append_nil]
  rfl

theorem safelyReads_read : SafelyReads read fun _ => True := by
  refine (safelyReads_readVaruint _).bind fun _ _ => ?_
  refine (safelyReads_readVaruint _).bind fun _ _ => ?_
  refine (safelyReads_readFixed64 _).bind fun _ _ => ?_
  refine (safelyReads_readFixed64 _).bind fun _ _ => ?_
  refine (safelyReads_readFixed64 _).bind fun _ _ => ?_
  refine (safelyReads_readVaruint _).bind fun _ _ => ?_
  refine (safelyReads_readFixed64 _).bind fun _ _ => ?_
  refine (safelyReads_readFixed64 _).bind fun _ _ => ?_
  refine (safelyReads_readVaruint _).bind fun _ _ => ?_
  refine (safelyReads_readVaruint _).bind fun _ _ => ?_
  refine (safelyReads_readFixed64 _).bind fun _ _ => ?_
  refine (safelyReads_readFixed64 _).bind fun _ _ => ?_
  exact safelyReads_pure trivial

theorem length_encode_le (fields : CheckpointFields) : fields.encode.length ≤ 106 := by
  have hvaruint := length_encodeVaruint_le
  have h₁ := hvaruint fields.previousSegmentCount
  have h₂ := hvaruint fields.previousInputPosition
  have h₃ := hvaruint fields.segmentInputCount
  have h₄ := hvaruint fields.stateSchema
  have h₅ := hvaruint fields.stateSize
  simp only [encode, List.length_append, length_encodeFixed64]
  omega

end CheckpointFields

namespace Checkpoint

/-- The bytes that are written of data. -/
def encodeData (data : CheckpointData) : List UInt8 :=
  Artifact.encodeHeader .checkpoint ++ (data.fields.encode ++ data.state)

theorem puts_writeData (data : CheckpointData) : Puts (writeData data) (encodeData data) () := by
  rw [encodeData, CheckpointFields.encode]
  simp only [List.append_assoc]
  refine (puts_header _).bind ?_
  refine (puts_varuint _).bind ?_
  refine (puts_varuint _).bind ?_
  refine (puts_fixed64 _).bind ?_
  refine (puts_fixed64 _).bind ?_
  refine (puts_fixed64 _).bind ?_
  refine (puts_varuint _).bind ?_
  refine (puts_fixed64 _).bind ?_
  refine (puts_fixed64 _).bind ?_
  refine (puts_varuint _).bind ?_
  refine (puts_varuint _).bind ?_
  refine (puts_fixed64 _).bind ?_
  refine (puts_fixed64 _).bind ?_
  exact puts_raw _

theorem length_encodeData_le (data : CheckpointData) :
    (encodeData data).length ≤ 114 + data.state.length := by
  have hfields := data.fields.length_encode_le
  rw [encodeData, List.length_append, List.length_append,
    show (Artifact.encodeHeader .checkpoint).length = 8 from rfl]
  omega

/-! ### Loading -/

theorem accept_eq_ok {fields : CheckpointFields} {candidate : CheckpointData}
    {checkpoint : Checkpoint} : accept fields candidate = Except.ok checkpoint ↔
      candidate.stateSchema = fields.stateSchema ∧ candidate.stateSize = fields.stateSize ∧
        candidate.stateHash = fields.stateHash ∧ candidate.valid = true ∧
        candidate.checkpointHash = fields.checkpointHash ∧
        checkpoint = { data := some candidate } := by
  simp only [accept, bind_eq_ok, require_eq_ok, pure_eq_ok, exists_const, and_assoc]
  simp only [@eq_comm _ checkpoint]

theorem lift_eq_ok {α : Type} {x : Checked ReplayCode α} {a : α} {r r' : Reader} :
    Reading.lift x r = Except.ok (a, r') ↔ x = Except.ok a ∧ r' = r := by
  rw [Reading.lift, bind_eq_ok]
  constructor
  · rintro ⟨b, hx, hpure⟩
    rw [pure_eq_ok, Prod.mk.injEq] at hpure
    exact ⟨hpure.1 ▸ hx, hpure.2.symm⟩
  · rintro ⟨hx, rfl⟩
    exact ⟨a, hx, rfl⟩

theorem requireState_eq_ok {limits : ReplayLimits} {stateSize : UInt64} {u : Unit} {r r' : Reader} :
    requireState limits stateSize r = Except.ok (u, r') ↔
      (¬ stateSize > limits.maxStateBytes ∧ stateSize.toNat = r.remaining) ∧ r' = r := by
  rw [requireState, bind_eq_ok]
  simp only [require_eq_ok, pure_eq_ok, exists_const, Prod.mk.injEq, true_and, eq_comm (a := r)]

/-- The reads of `load`, up to where nothing may be left. -/
theorem reads_body {limits : ReplayLimits} {data : CheckpointData}
    (hsize : data.stateSize.toNat = data.state.length) (hlimit : data.stateSize ≤ limits.maxStateBytes)
    {r : Reader} (hin : r.Inside) (hrest : r.rest = data.state) :
    requireState limits data.stateSize r = Except.ok ((), r) ∧
      Reading.slice ReplayCode.checkpointBadField data.stateSize.toNat r =
        Except.ok (data.state, r.skip data.state.length) ∧
      (r.skip data.state.length).offset = (r.skip data.state.length).bytes.length := by
  have hremaining : r.remaining = data.state.length := by rw [← Reader.length_rest, hrest]
  refine ⟨?_, ?_, ?_⟩
  · rw [requireState_eq_ok]
    exact ⟨⟨UInt64.not_lt.mpr hlimit, hsize.trans hremaining.symm⟩, rfl⟩
  · rw [hsize]
    exact reads_slice _ data.state r [] hin (by rw [hrest, List.append_nil])
  · unfold Reader.remaining at hremaining
    unfold Reader.Inside at hin
    show r.offset + data.state.length = r.bytes.length
    omega

/-- **What `load` accepts**: an artifact of data that the constructor made, within the limits. -/
theorem load_eq_ok {limits : ReplayLimits} {artifact : List UInt8} {checkpoint : Checkpoint} :
    load limits artifact = Except.ok checkpoint ↔
      ∃ data : CheckpointData, checkpoint = { data := some data } ∧ data.valid = true ∧
        data.fields.construct data.state = data ∧ data.stateSize.toNat = data.state.length ∧
        artifact = encodeData data ∧ artifact.length ≤ limits.maxBytes.toNat ∧
        1 ≤ limits.maxEntries ∧ data.stateSize ≤ limits.maxStateBytes := by
  simp only [load, bind_eq_ok, require_eq_ok, exists_const]
  constructor
  · rintro ⟨hbytes, hentries, ⟨found, r⟩, hbody, hfound⟩
    rw [pure_eq_ok] at hfound
    subst hfound
    simp only [reading_bind, bind_eq_ok] at hbody
    obtain ⟨⟨⟨⟩, r₁⟩, hheader, ⟨fields, r₂⟩, hread, ⟨⟨⟩, r₃⟩, hschema, ⟨⟨⟩, r₄⟩, hstate,
      ⟨state, r₅⟩, hslice, ⟨⟨⟩, r₆⟩, hdone, hlast⟩ := hbody
    dsimp only at hheader hread hschema hstate hslice hdone hlast
    obtain ⟨-, rfl⟩ := lift_eq_ok.mp hschema
    obtain ⟨⟨hlimit, -⟩, rfl⟩ := requireState_eq_ok.mp hstate
    obtain ⟨haccept, rfl⟩ := lift_eq_ok.mp hlast
    obtain ⟨c₁, hadv₁, rfl⟩ := consumes_readHeader .checkpoint _ _ _ _ (Nat.zero_le _) hheader
    obtain ⟨c₂, hadv₂, rfl⟩ := CheckpointFields.consumes_read _ _ _ hadv₁.inside hread
    obtain ⟨c₃, hadv₃, rfl, hlen⟩ := consumes_slice _ _ _ _ _ hadv₂.inside hslice
    simp only [Reading.requireDone, bind_eq_ok, require_eq_ok, pure_eq_ok, exists_const,
      Prod.mk.injEq, true_and] at hdone
    obtain ⟨hend, rfl⟩ := hdone
    obtain ⟨hsame, hsize, hhash, hvalid, hcheckpoint, rfl⟩ := accept_eq_ok.mp haccept
    obtain ⟨hconstructed, hfields⟩ := fields.fields_construct c₃
    have hall : (fields.construct c₃).fields = fields := by
      rw [hfields, hcheckpoint]
      have hsize' := congrArg CheckpointFields.stateSize hfields
      have hhash' := congrArg CheckpointFields.stateHash hfields
      dsimp only at hsize' hhash'
      rw [← hsize', ← hhash']
      show ({ fields with stateSize := (fields.construct c₃).stateSize
                          stateHash := (fields.construct c₃).stateHash } : CheckpointFields) = fields
      rw [hsize, hhash]
    have hcode := ((hadv₁.trans hadv₂).trans hadv₃).rest_eq
    have hnil : r₅.rest = [] := List.drop_eq_nil_of_le (Nat.le_of_eq hend.symm)
    rw [hnil, List.append_nil, List.append_assoc] at hcode
    refine ⟨fields.construct c₃, rfl, hvalid, ?_, ?_, ?_, not_lt.mp hbytes, ?_, ?_⟩
    · rw [hall, hconstructed]
    · rw [hsize, hconstructed, hlen]
    · rw [encodeData, hall, hconstructed]
      exact hcode
    · exact UInt64.not_lt.mp hentries
    · rw [hsize]
      exact UInt64.not_lt.mp hlimit
  · rintro ⟨data, rfl, hvalid, hremake, hsize, rfl, hbytes, hentries, hlimit⟩
    have hschema : data.fields.stateSchema ≠ 0 := (CheckpointData.valid_iff.mp hvalid).schema
    -- the header and the fields are read, and the state is what is left
    have hadvanced : ∀ {r : Reader} {code rest : List UInt8}, r.Inside → r.rest = code ++ rest →
        (r.skip code.length).Inside ∧ (r.skip code.length).rest = rest := by
      intro r code rest hin hrest
      refine ⟨hin.skip (Reader.remaining_of_rest hrest), ?_⟩
      rw [Reader.rest_skip, hrest, List.drop_left]
    have hin₀ : ({ bytes := encodeData data } : Reader).Inside := Nat.zero_le _
    have hheader := reads_readHeader .checkpoint ReplayCode.checkpointBadHeader _ _ hin₀ rfl
    obtain ⟨hin₁, hrest₁⟩ := hadvanced hin₀ (rfl : Reader.rest { bytes := encodeData data } =
      Artifact.encodeHeader .checkpoint ++ (data.fields.encode ++ data.state))
    have hfields := CheckpointFields.reads_read data.fields _ _ hin₁ hrest₁
    obtain ⟨hin₂, hrest₂⟩ := hadvanced hin₁ hrest₁
    obtain ⟨hstate, hslice, hend⟩ := reads_body hsize hlimit hin₂ hrest₂
    refine ⟨not_lt.mpr hbytes, UInt64.not_lt.mpr hentries, ({ data := some data },
      (((Reader.mk (encodeData data) 0).skip (Artifact.encodeHeader .checkpoint).length).skip
        data.fields.encode.length).skip data.state.length), ?_, rfl⟩
    rw [reading_bind, hheader, ok_bind]
    dsimp only
    rw [reading_bind, hfields, ok_bind]
    dsimp only
    rw [reading_bind, lift_eq_ok.mpr ⟨(require_eq_ok (u := ())).mpr hschema, rfl⟩, ok_bind]
    dsimp only
    rw [reading_bind]
    show (requireState limits data.stateSize _ >>= _) = _
    rw [hstate, ok_bind]
    dsimp only
    rw [reading_bind]
    show (Reading.slice ReplayCode.checkpointBadField data.stateSize.toNat _ >>= _) = _
    rw [hslice, ok_bind]
    dsimp only
    rw [reading_bind, Reading.requireDone, require, if_pos hend]
    show Reading.lift (accept data.fields (data.fields.construct data.state)) _ = _
    rw [lift_eq_ok, hremake]
    exact ⟨accept_eq_ok.mpr ⟨rfl, rfl, rfl, hvalid, rfl, rfl⟩, rfl⟩

/-- `load` stays inside the artifact. -/
theorem load_inBounds (limits : ReplayLimits) (artifact : List UInt8) :
    load limits artifact ≠ Except.error Stop.outOfBounds := by
  have hbody : SafelyReads (do
      Reading.readHeader .checkpoint ReplayCode.checkpointBadHeader
      let fields ← CheckpointFields.read
      Reading.lift (require (fields.stateSchema ≠ 0) .stateSchemaInvalid)
      requireState limits fields.stateSize
      let state ← Reading.slice .checkpointBadField fields.stateSize.toNat
      Reading.requireDone .checkpointBadField
      Reading.lift (accept fields (fields.construct state))) fun _ => True := by
    refine (safelyReads_readHeader _ _).bind fun _ _ => ?_
    refine CheckpointFields.safelyReads_read.bind fun fields _ => ?_
    refine SafelyReads.require_bind fun _ => ?_
    refine SafelyReads.bind (Q := fun _ => True) ?_ fun _ _ => ?_
    · exact fun r hin => Safely.require_bind fun _ => safely_pure ⟨trivial, hin⟩
    refine (safelyReads_slice _ _).bind fun state _ => ?_
    refine (safelyReads_requireDone _).bind fun _ _ => ?_
    refine safelyReads_lift ?_
    refine Safely.require_bind fun _ => ?_
    refine Safely.require_bind fun _ => ?_
    refine Safely.require_bind fun _ => ?_
    exact Safely.require_bind fun _ => safely_pure trivial
  refine Safely.inBounds (Q := fun _ => True) ?_
  refine Safely.require_bind fun _ => ?_
  refine Safely.require_bind fun _ => ?_
  exact Safely.bind (hbody _ (Nat.zero_le _)) fun _ _ => safely_pure trivial

/-! ### Saving -/

/-- What a sink is given by a save that went well. -/
theorem persist_eq {sink : Sink} {checkpoint : Checkpoint} {data : CheckpointData}
    {bytes : List UInt8} (hdata : checkpoint.data = some data)
    (hsave : persist sink checkpoint = Except.ok bytes) : bytes = encodeData data := by
  simp only [persist, bind_eq_ok, require_eq_ok, exists_const, hdata] at hsave
  exact (puts_writeData data).of_save hsave.2

/-- A sink that takes everything is given everything. -/
theorem persist_accepting {sink : Sink} {checkpoint : Checkpoint} {data : CheckpointData}
    (hdata : checkpoint.data = some data) (hvalid : data.valid = true)
    (haccepts : ∀ sent span, sink.write sent span = true)
    (hfits : (encodeData data).length ≤ sink.maxBytes.toNat) :
    persist sink checkpoint = Except.ok (encodeData data) := by
  rw [persist, (require_eq_ok (u := ())).mpr (ok_iff.mpr ⟨data, hdata, hvalid⟩), ok_bind, hdata]
  exact (puts_writeData data).save_eq haccepts hfits

/-! ### The round trip -/

/-- **A checkpoint is loaded as it was saved, and saved as it was loaded.**  The limits have to
leave room for the artifact and the state, and for one entry.  What is loaded is in order: its
counters are sums without overflow, and its hashes those of its fields. -/
theorem checkpoint_roundTrip :
    (∀ (checkpoint : Checkpoint) (data : CheckpointData), checkpoint.data = some data →
      data.Constructed → data.valid = true →
      (∃ bytes, persist { write := fun _ _ => true } checkpoint = Except.ok bytes) ∧
      ∀ (sink : Sink) (bytes : List UInt8) (limits : ReplayLimits),
        persist sink checkpoint = Except.ok bytes →
        (load limits bytes = Except.ok { data := some data } ↔
          bytes.length ≤ limits.maxBytes.toNat ∧ 1 ≤ limits.maxEntries ∧
            data.state.length ≤ limits.maxStateBytes.toNat)) ∧
    (∀ (limits : ReplayLimits) (encoded : List UInt8) (checkpoint : Checkpoint),
      load limits encoded = Except.ok checkpoint →
        (∀ sink : Sink, (∀ sent span, sink.write sent span = true) →
          encoded.length ≤ sink.maxBytes.toNat →
            persist sink checkpoint = Except.ok encoded) ∧
        (∀ (sink : Sink) (bytes : List UInt8), persist sink checkpoint = Except.ok bytes →
          bytes = encoded) ∧
        ∃ data, checkpoint = { data := some data } ∧ data.valid = true ∧ data.Chained ∧
          data.stateHash = hashState data.stateSchema data.state) ∧
    ∀ (limits : ReplayLimits) (encoded : List UInt8),
      load limits encoded ≠ Except.error Stop.outOfBounds := by
  refine ⟨?_, ?_, load_inBounds⟩
  · intro checkpoint data hdata hconstructed hvalid
    have hlen := length_encodeData_le data
    have hstate := hconstructed.addressable
    have hsize := hconstructed.stateSize_eq
    constructor
    · refine ⟨_, persist_accepting hdata hvalid (fun _ _ => rfl) ?_⟩
      have hmax : (~~~0 : UInt64).toNat = 2 ^ 64 - 1 := allOnes_toNat
      show _ ≤ (~~~0 : UInt64).toNat
      omega
    · intro sink bytes limits hsave
      rw [persist_eq hdata hsave, load_eq_ok]
      constructor
      · rintro ⟨_, hsame, -, -, -, -, hbytes, hentries, hlimit⟩
        obtain rfl := Option.some.inj (congrArg Checkpoint.data hsame)
        rw [UInt64.le_iff_toNat_le, hsize] at hlimit
        exact ⟨hbytes, hentries, hlimit⟩
      · rintro ⟨hbytes, hentries, hlimit⟩
        refine ⟨data, rfl, hvalid, hconstructed.remake, hsize, rfl, hbytes, hentries, ?_⟩
        rw [UInt64.le_iff_toNat_le, hsize]
        exact hlimit
  · intro limits encoded checkpoint hload
    obtain ⟨data, rfl, hvalid, hremake, hsize, rfl, -, -, -⟩ := load_eq_ok.mp hload
    refine ⟨?_, ?_, data, rfl, hvalid, CheckpointData.valid_iff.mp hvalid, ?_⟩
    · exact fun sink haccepts hfits => persist_accepting rfl hvalid haccepts hfits
    · exact fun sink bytes hsave => persist_eq rfl hsave
    · have hhash := congrArg CheckpointFields.stateHash
        (CheckpointFields.fields_construct data.fields data.state).2
      rw [hremake] at hhash
      exact hhash

/-! ### Two first segments -/

/-- The checkpoint behind a first segment with an empty record. -/
def firstData (state : List UInt8) : CheckpointData := .make {} {} 1 state

theorem constructed_firstData {state : List UInt8} (h : state.length < 2 ^ 63) :
    (firstData state).Constructed := by
  refine ⟨⟨{}, {}, 1, state, rfl⟩, ?_⟩
  rw [firstData, (CheckpointData.fields_make _ _ _ _).1]
  exact h

theorem valid_firstData (state : List UInt8) : (firstData state).valid = true :=
  CheckpointData.valid_make (by decide) (by decide) (by decide) fun _ => ⟨rfl, rfl, rfl⟩

theorem checkpoint_roundTrip_first :
    ∃ bytes, persist { write := fun _ _ => true } { data := some (firstData [7, 9]) } =
        Except.ok bytes ∧
      load {} bytes = Except.ok { data := some (firstData [7, 9]) } := by
  have hstate : (firstData [7, 9]).state = [7, 9] := (CheckpointData.fields_make _ _ _ _).1
  have hconstructed := @constructed_firstData [7, 9] (by decide)
  obtain ⟨⟨bytes, hsave⟩, hload⟩ := checkpoint_roundTrip.1 { data := some (firstData [7, 9]) }
    (firstData [7, 9]) rfl hconstructed (valid_firstData _)
  refine ⟨bytes, hsave, (hload _ _ {} hsave).mpr ⟨?_, by decide, ?_⟩⟩
  · rw [persist_eq rfl hsave]
    refine (length_encodeData_le _).trans ?_
    rw [hstate]
    decide
  · rw [hstate]
    decide

/-- Under the default limits a state of one byte more than 64 MiB is not loaded. -/
theorem default_limits_refuse_state :
    ¬ ∀ (checkpoint : Checkpoint) (data : CheckpointData) (bytes : List UInt8),
        checkpoint.data = some data → data.Constructed → data.valid = true →
        persist { write := fun _ _ => true } checkpoint = Except.ok bytes →
        load {} bytes = Except.ok { data := some data } := by
  intro h
  have hlen : (List.replicate (64 * 1024 * 1024 + 1) (0 : UInt8)).length = 64 * 1024 * 1024 + 1 :=
    List.length_replicate
  generalize List.replicate (64 * 1024 * 1024 + 1) (0 : UInt8) = state at hlen
  have hstate : (firstData state).state = state := (CheckpointData.fields_make _ _ _ _).1
  have hconstructed := @constructed_firstData state (by omega)
  have hsize := hconstructed.stateSize_eq
  have hencoded := length_encodeData_le (firstData state)
  rw [hstate] at hsize hencoded
  have hmax : (~~~0 : UInt64).toNat = 2 ^ 64 - 1 := allOnes_toNat
  have hsave := @persist_accepting { write := fun _ _ => true } { data := some (firstData state) }
    (firstData state) rfl (valid_firstData state) (fun _ _ => rfl) (by
      show _ ≤ (~~~0 : UInt64).toNat
      omega)
  obtain ⟨_, hsame, -, -, -, -, -, -, hlimit⟩ :=
    load_eq_ok.mp (h _ _ _ rfl hconstructed (valid_firstData state) hsave)
  obtain rfl := Option.some.inj (congrArg Checkpoint.data hsame)
  rw [UInt64.le_iff_toNat_le, hsize, hlen] at hlimit
  exact absurd hlimit (by decide)

end Checkpoint

end RunD
