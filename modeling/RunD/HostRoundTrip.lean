/-
The artifact of a list of host events is read back as that list, and every
artifact that is read is the one its list is written as.

An event is spelled by `encodeHostEvent`.  The writer puts out this spelling,
the reader reads it, and what the reader accepts is spelled that way; the
three lists of fields are compared once, in `FieldsAgree`.
-/
import RunD.HostEvents
import Mathlib.Algebra.Order.BigOperators.Group.List
import Mathlib.Data.List.Chain
import Mathlib.Tactic.IntervalCases

namespace RunD

/-! ### The spelling of an event -/

/-- What the writer asks of an event. -/
structure EventFits (cursor : EventCursor) (event : HostEvent) : Prop where
  kind : knownKind event.kind.value.toUInt64 = true
  status : knownStatus event.status.value.toUInt64 = true
  sequence : cursor.previousSequence ≤ event.sequence
  logicalTime : cursor.previousLogicalTime ≤ event.logicalTimeNs

/-- An event behind the one at `cursor`, spelled with the fields `fields`. -/
def encodeEventWith (fields : UInt16) (cursor : EventCursor) (event : HostEvent) : List UInt8 :=
  [ encodeVaruint (event.sequence - cursor.previousSequence),
    encodeVaruint event.kind.value.toUInt64,
    encodeVaruint event.status.value.toUInt64,
    encodeVaruint fields.toUInt64,
    if hasFlag fields EventField.task then encodeVaruint event.taskId else [],
    if hasFlag fields EventField.logicalTimeDelta then
      encodeVaruint (event.logicalTimeNs - cursor.previousLogicalTime) else [],
    if hasFlag fields EventField.stream then encodeVaruint event.streamId else [],
    if hasFlag fields EventField.draw then encodeVaruint event.drawId else [],
    if hasFlag fields EventField.handle then encodeVaruint event.hostHandleId else [],
    if hasFlag fields EventField.offset then encodeVaruint event.offset else [],
    if hasFlag fields EventField.requested then encodeVaruint event.requestedBytes else [],
    if hasFlag fields EventField.completed then encodeVaruint event.completedBytes else [],
    if hasFlag fields EventField.nativeErrno then encodeSint event.nativeErrno.toInt64 else [],
    if hasFlag fields EventField.nameHash then encodeFixed64 event.nameHash else [],
    if hasFlag fields EventField.pathHash then encodeFixed64 event.pathHash else [],
    if hasFlag fields EventField.payloadHash then encodeFixed64 event.payloadHash else []
  ].flatten

/-- The spelling of events, one behind the other. -/
def hostFormat : Running EventCursor HostEvent where
  encode cursor event := encodeEventWith
    (eventFields event (event.logicalTimeNs - cursor.previousLogicalTime)) cursor event
  next _ event :=
    { previousSequence := event.sequence, previousLogicalTime := event.logicalTimeNs }

/-! ### The fields that are there -/

/-- The fields of an event that are there are those that are not zero. -/
structure FieldsAgree (fields : UInt16) (event : HostEvent) (logicalTimeDelta : UInt64) :
    Prop where
  task : hasFlag fields EventField.task = (event.taskId != 0)
  logicalTimeDelta : hasFlag fields EventField.logicalTimeDelta = (logicalTimeDelta != 0)
  stream : hasFlag fields EventField.stream = (event.streamId != 0)
  draw : hasFlag fields EventField.draw = (event.drawId != 0)
  handle : hasFlag fields EventField.handle = (event.hostHandleId != 0)
  offset : hasFlag fields EventField.offset = (event.offset != 0)
  requested : hasFlag fields EventField.requested = (event.requestedBytes != 0)
  completed : hasFlag fields EventField.completed = (event.completedBytes != 0)
  nativeErrno : hasFlag fields EventField.nativeErrno = (event.nativeErrno != 0)
  nameHash : hasFlag fields EventField.nameHash = (event.nameHash != 0)
  pathHash : hasFlag fields EventField.pathHash = (event.pathHash != 0)
  payloadHash : hasFlag fields EventField.payloadHash = (event.payloadHash != 0)

theorem eventFields_agree (event : HostEvent) (logicalTimeDelta : UInt64) :
    FieldsAgree (eventFields event logicalTimeDelta) event logicalTimeDelta := by
  constructor <;>
    simp [eventFields, hasFlag_or, hasFlag_flag, EventField.task, EventField.logicalTimeDelta,
      EventField.stream, EventField.draw, EventField.handle, EventField.offset,
      EventField.requested, EventField.completed, EventField.nativeErrno, EventField.nameHash,
      EventField.pathHash, EventField.payloadHash]

theorem eventFields_lt (event : HostEvent) (logicalTimeDelta : UInt64) :
    (eventFields event logicalTimeDelta).toNat < 2 ^ 12 := by
  repeat apply or_lt
  all_goals exact flag_lt _ (by decide) (by decide)

/-- No other word says the same. -/
theorem FieldsAgree.eq {fields : UInt16} {event : HostEvent} {logicalTimeDelta : UInt64}
    (h : FieldsAgree fields event logicalTimeDelta) (hmask : fields ≤ kEventFieldMask) :
    fields = eventFields event logicalTimeDelta := by
  have hsame := eventFields_agree event logicalTimeDelta
  have hlt : fields.toNat < 2 ^ 12 := by
    have := UInt16.le_iff_toNat_le.mp hmask
    rw [show kEventFieldMask.toNat = 2 ^ 12 - 1 by decide] at this
    omega
  refine eq_of_hasFlag (by decide) hlt (eventFields_lt event logicalTimeDelta) fun bit hbit => ?_
  interval_cases bit
  · exact h.task.trans hsame.task.symm
  · exact h.logicalTimeDelta.trans hsame.logicalTimeDelta.symm
  · exact h.stream.trans hsame.stream.symm
  · exact h.draw.trans hsame.draw.symm
  · exact h.handle.trans hsame.handle.symm
  · exact h.offset.trans hsame.offset.symm
  · exact h.requested.trans hsame.requested.symm
  · exact h.completed.trans hsame.completed.symm
  · exact h.nativeErrno.trans hsame.nativeErrno.symm
  · exact h.nameHash.trans hsame.nameHash.symm
  · exact h.pathHash.trans hsame.pathHash.symm
  · exact h.payloadHash.trans hsame.payloadHash.symm

/-- The word that says which fields are there is the only one that fits. -/
theorem FieldsAgree.encode_eq {fields : UInt16} {cursor : EventCursor} {event : HostEvent}
    (h : FieldsAgree fields event (event.logicalTimeNs - cursor.previousLogicalTime))
    (hmask : fields ≤ kEventFieldMask) :
    hostFormat.encode cursor event = encodeEventWith fields cursor event := by
  rw [h.eq hmask]
  rfl

theorem presentValue_iff {fields field : UInt16} {value : UInt64} :
    presentValue fields field value = true ↔ hasFlag fields field = (value != 0) := by
  rw [presentValue]
  rcases hasFlag fields field with - | -
  · simp
  · simp

theorem value_eq_zero {fields field : UInt16} {value : UInt64}
    (h : hasFlag fields field = (value != 0)) (habsent : hasFlag fields field = false) :
    value = 0 := by
  rw [habsent] at h
  simpa using h.symm

/-- The error number counts as a field like the others. -/
theorem errnoPresent (errno : Int32) :
    ((if errno.toInt64 != 0 then 1 else 0 : UInt64) != 0) = (errno != 0) := by
  have hzero : errno.toInt64 = 0 ↔ errno = 0 := by
    rw [← Int64.toInt_inj, ← Int32.toInt_inj, Int32.toInt_toInt64]
    rfl
  by_cases h : errno = 0
  · simp [h]
  · have h' := hzero.not.mpr h
    simp [h, h']

theorem toInt64_inRange (value : Int32) :
    ¬ (value.toInt64 < Int32.minValue.toInt64 ∨ value.toInt64 > Int32.maxValue.toInt64) := by
  have hlow := value.le_toInt
  have hhigh := value.toInt_lt
  simp only [gt_iff_lt, Int64.lt_iff_toInt_lt, Int32.toInt_toInt64, Int32.toInt_minValue,
    Int32.toInt_maxValue]
  omega

/-! ### Writing -/

/-- The writer puts out the spelling of an event. -/
theorem puts_writeHostEvent {cursor : EventCursor} {event : HostEvent}
    (h : EventFits cursor event) :
    Puts (writeHostEvent cursor event) (hostFormat.encode cursor event)
      (hostFormat.next cursor event) := by
  have hsequence : ¬ event.sequence < cursor.previousSequence := UInt64.not_lt.mpr h.sequence
  have htime : ¬ event.logicalTimeNs < cursor.previousLogicalTime :=
    UInt64.not_lt.mpr h.logicalTime
  refine Puts.require_bind ⟨h.kind, h.status, hsequence, htime⟩ ?_
  refine (puts_varuint _).bind ?_
  refine (puts_varuint _).bind ?_
  refine (puts_varuint _).bind ?_
  refine (puts_varuint _).bind ?_
  refine (puts_writeIf fun _ => puts_varuint _).bind ?_
  refine (puts_writeIf fun _ => puts_varuint _).bind ?_
  refine (puts_writeIf fun _ => puts_varuint _).bind ?_
  refine (puts_writeIf fun _ => puts_varuint _).bind ?_
  refine (puts_writeIf fun _ => puts_varuint _).bind ?_
  refine (puts_writeIf fun _ => puts_varuint _).bind ?_
  refine (puts_writeIf fun _ => puts_varuint _).bind ?_
  refine (puts_writeIf fun _ => puts_varuint _).bind ?_
  refine (puts_writeIf fun _ => puts_sint _).bind ?_
  refine (puts_writeIf fun _ => puts_fixed64 _).bind ?_
  refine (puts_writeIf fun _ => puts_fixed64 _).bind ?_
  exact (puts_writeIf fun _ => puts_fixed64 _).bind (puts_pure _)

/-- The spelling of a list of events behind its length and its hash. -/
def encodeHostEvidence (events : List HostEvent) (eventHash : UInt64) : List UInt8 :=
  encodeVaruint (UInt64.ofNat events.length) ++
    (encodeFixed64 eventHash ++ hostFormat.encodeAll {} events)

theorem puts_writeHostEvidence {events : List HostEvent} (h : hostFormat.Along EventFits {} events)
    (eventHash : UInt64) :
    Puts (writeHostEvidence events eventHash) (encodeHostEvidence events eventHash) () := by
  refine (puts_varuint _).bind ?_
  refine (puts_fixed64 _).bind ?_
  rw [← List.append_nil (hostFormat.encodeAll {} events)]
  exact (puts_each (fun _ _ => puts_writeHostEvent) h).bind (puts_pure ())

/-! ### Reading what was written -/

theorem reads_readHostEvent {cursor : EventCursor} {event : HostEvent}
    (h : EventFits cursor event) :
    Reads (readHostEvent cursor) (hostFormat.encode cursor event)
      (event, hostFormat.next cursor event) := by
  have hagree := eventFields_agree event (event.logicalTimeNs - cursor.previousLogicalTime)
  have hlt := eventFields_lt event (event.logicalTimeNs - cursor.previousLogicalTime)
  show Reads (readHostEvent cursor) (encodeEventWith _ cursor event) _
  generalize eventFields event (event.logicalTimeNs - cursor.previousLogicalTime) = fields
    at hagree hlt ⊢
  have hmask : ¬ fields.toUInt64 > kEventFieldMask.toUInt64 := by
    rw [gt_iff_lt, UInt64.lt_iff_toNat_lt, UInt16.toNat_toUInt64, UInt16.toNat_toUInt64,
      show kEventFieldMask.toNat = 2 ^ 12 - 1 by decide]
    omega
  have herrno : hasFlag fields EventField.nativeErrno =
      ((if event.nativeErrno.toInt64 != 0 then 1 else 0 : UInt64) != 0) := by
    rw [hagree.nativeErrno, errnoPresent]
  refine (reads_readVaruint _ _).bind ?_
  refine (reads_readVaruint _ _).bind ?_
  refine Reads.require_bind h.kind ?_
  refine (reads_readVaruint _ _).bind ?_
  refine Reads.require_bind h.status ?_
  refine (reads_readVaruint _ _).bind ?_
  refine Reads.require_bind hmask ?_
  rw [UInt16.toUInt16_toUInt64, UInt16.toUInt16_toUInt64, UInt16.toUInt16_toUInt64]
  refine Reads.require_bind (checkedAdd_sub h.sequence) ?_
  refine (reads_readIf (fun _ => reads_readVaruint _ _) (value_eq_zero hagree.task)).bind ?_
  refine (reads_readIf (fun _ => reads_readVaruint _ _)
    (value_eq_zero hagree.logicalTimeDelta)).bind ?_
  refine (reads_readIf (fun _ => reads_readVaruint _ _) (value_eq_zero hagree.stream)).bind ?_
  refine (reads_readIf (fun _ => reads_readVaruint _ _) (value_eq_zero hagree.draw)).bind ?_
  refine (reads_readIf (fun _ => reads_readVaruint _ _) (value_eq_zero hagree.handle)).bind ?_
  refine (reads_readIf (fun _ => reads_readVaruint _ _) (value_eq_zero hagree.offset)).bind ?_
  refine (reads_readIf (fun _ => reads_readVaruint _ _) (value_eq_zero hagree.requested)).bind ?_
  refine (reads_readIf (fun _ => reads_readVaruint _ _) (value_eq_zero hagree.completed)).bind ?_
  refine (reads_readIf (fun _ => reads_readSint _ _) fun habsent => ?_).bind ?_
  · rw [hagree.nativeErrno] at habsent
    rw [show event.nativeErrno = 0 by simpa using habsent]
    rfl
  refine Reads.require_bind (toInt64_inRange _) ?_
  refine (reads_readIf (fun _ => reads_readFixed64 _ _) (value_eq_zero hagree.nameHash)).bind ?_
  refine (reads_readIf (fun _ => reads_readFixed64 _ _) (value_eq_zero hagree.pathHash)).bind ?_
  refine (reads_readIf (fun _ => reads_readFixed64 _ _) (value_eq_zero hagree.payloadHash)).bind ?_
  refine Reads.require_bind ?_ ?_
  · simp only [presentValue_iff]
    exact ⟨hagree.task, hagree.logicalTimeDelta, hagree.stream, hagree.draw, hagree.handle,
      hagree.offset, hagree.requested, hagree.completed, herrno, hagree.nameHash,
      hagree.pathHash, hagree.payloadHash⟩
  refine Reads.require_bind (checkedAdd_sub h.logicalTime) ?_
  rw [add_sub_self, add_sub_self, Int32.toInt32_toInt64]
  exact reads_pure _

theorem reads_readHostEvidence {events : List HostEvent} (h : hostFormat.Along EventFits {} events)
    {maxEntries : UInt64} (hentries : UInt64.ofNat events.length ≤ maxEntries)
    (hlen : events.length < 2 ^ 64) :
    Reads (readHostEvidence maxEntries) (encodeHostEvidence events (hashEvents events))
      { events := events, eventHash := hashEvents events } := by
  have hcount : (UInt64.ofNat events.length).toNat = events.length := by
    rw [UInt64.toNat_ofNat', Nat.mod_eq_of_lt hlen]
  refine (reads_readVaruint _ _).bind ?_
  refine Reads.require_bind (UInt64.not_lt.mpr hentries) ?_
  refine (reads_readFixed64 _ _).bind ?_
  rw [hcount, ← List.append_nil (hostFormat.encodeAll {} events)]
  refine (reads_collect (fun _ _ => reads_readHostEvent) h).bind ?_
  exact Reads.require_bind rfl (reads_pure _)

/-! ### Writing what was read -/

theorem toUInt64_toUInt16 {value : UInt64} (h : value ≤ 0xffff) :
    value.toUInt16.toUInt64 = value := by
  rw [UInt64.le_iff_toNat_le] at h
  rw [← UInt64.toNat_inj, UInt16.toNat_toUInt64, UInt64.toNat_toUInt16]
  exact Nat.mod_eq_of_lt (Nat.lt_succ_of_le h)

theorem toInt64_toInt32 {value : Int64}
    (h : ¬ (value < Int32.minValue.toInt64 ∨ value > Int32.maxValue.toInt64)) :
    value.toInt32.toInt64 = value := by
  simp only [gt_iff_lt, Int64.lt_iff_toInt_lt, Int32.toInt_toInt64, Int32.toInt_minValue,
    Int32.toInt_maxValue, not_or, not_lt] at h
  rw [← Int64.toInt_inj, Int32.toInt_toInt64, Int64.toInt_toInt32]
  exact Int.bmod_eq_of_le (by omega) (by omega)

theorem consumes_readHostEvent (cursor : EventCursor) :
    Consumes (readHostEvent cursor) fun x code =>
      EventFits cursor x.1 ∧ True ∧ x.2 = hostFormat.next cursor x.1 ∧
        code = hostFormat.encode cursor x.1 := by
  refine (consumes_readVaruint _).bind fun sequenceDelta c₁ h₁ => ?_
  refine (consumes_readVaruint _).bind fun kind c₂ h₂ => ?_
  refine Consumes.require_bind fun hkind => ?_
  refine (consumes_readVaruint _).bind fun status c₃ h₃ => ?_
  refine Consumes.require_bind fun hstatus => ?_
  refine (consumes_readVaruint _).bind fun fieldsValue c₄ h₄ => ?_
  refine Consumes.require_bind fun hmask => ?_
  refine Consumes.require_bind fun hsequence => ?_
  refine (consumes_readIf (consumes_readVaruint _)).bind fun taskId c₅ h₅ => ?_
  refine (consumes_readIf (consumes_readVaruint _)).bind fun logicalTimeDelta c₆ h₆ => ?_
  refine (consumes_readIf (consumes_readVaruint _)).bind fun streamId c₇ h₇ => ?_
  refine (consumes_readIf (consumes_readVaruint _)).bind fun drawId c₈ h₈ => ?_
  refine (consumes_readIf (consumes_readVaruint _)).bind fun hostHandleId c₉ h₉ => ?_
  refine (consumes_readIf (consumes_readVaruint _)).bind fun offset c₁₀ h₁₀ => ?_
  refine (consumes_readIf (consumes_readVaruint _)).bind fun requestedBytes c₁₁ h₁₁ => ?_
  refine (consumes_readIf (consumes_readVaruint _)).bind fun completedBytes c₁₂ h₁₂ => ?_
  refine (consumes_readIf (consumes_readSint _)).bind fun nativeErrno c₁₃ h₁₃ => ?_
  refine Consumes.require_bind fun herrno => ?_
  refine (consumes_readIf (consumes_readFixed64 _)).bind fun nameHash c₁₄ h₁₄ => ?_
  refine (consumes_readIf (consumes_readFixed64 _)).bind fun pathHash c₁₅ h₁₅ => ?_
  refine (consumes_readIf (consumes_readFixed64 _)).bind fun payloadHash c₁₆ h₁₆ => ?_
  refine Consumes.require_bind fun hpresent => ?_
  refine Consumes.require_bind fun htime => ?_
  refine consumes_pure ?_
  obtain ⟨hsequenceLe, hsequenceSub⟩ := sub_of_checkedAdd hsequence
  obtain ⟨htimeLe, htimeSub⟩ := sub_of_checkedAdd htime
  have hkind' := toUInt64_toUInt16 (decide_eq_true_iff.mp (Bool.and_eq_true_iff.mp hkind).1)
  have hstatus' : status.toUInt16.toUInt64 = status := by
    refine toUInt64_toUInt16 (UInt64.le_trans (decide_eq_true_iff.mp hstatus) ?_)
    decide
  have hmask' : fieldsValue ≤ kEventFieldMask.toUInt64 := UInt64.not_lt.mp hmask
  have hfields' : fieldsValue.toUInt16.toUInt64 = fieldsValue :=
    toUInt64_toUInt16 (UInt64.le_trans hmask' (by decide))
  have herrno' := toInt64_toInt32 herrno
  refine ⟨⟨?_, ?_, hsequenceLe, htimeLe⟩, trivial, rfl, ?_⟩
  · dsimp only
    rw [hkind']
    exact hkind
  · dsimp only
    rw [hstatus']
    exact hstatus
  · simp only [presentValue_iff] at hpresent
    obtain ⟨p₁, p₂, p₃, p₄, p₅, p₆, p₇, p₈, p₉, p₁₀, p₁₁, p₁₂⟩ := hpresent
    rw [← herrno', errnoPresent] at p₉
    refine Eq.trans ?_ (@FieldsAgree.encode_eq fieldsValue.toUInt16 cursor _ ?_ ?_).symm
    · rw [encodeEventWith]
      dsimp only
      rw [hsequenceSub, htimeSub, hkind', hstatus', hfields', herrno', h₁, h₂, h₃, h₄, h₅.1, h₆.1,
        h₇.1, h₈.1, h₉.1, h₁₀.1, h₁₁.1, h₁₂.1, h₁₃.1, h₁₄.1, h₁₅.1, h₁₆.1]
      rfl
    · exact ⟨p₁, htimeSub.symm ▸ p₂, p₃, p₄, p₅, p₆, p₇, p₈, p₉, p₁₀, p₁₁, p₁₂⟩
    · rw [UInt16.le_iff_toNat_le, ← UInt16.toNat_toUInt64, hfields', ← UInt16.toNat_toUInt64]
      exact UInt64.le_iff_toNat_le.mp hmask'

theorem consumes_readHostEvidence (maxEntries : UInt64) :
    Consumes (readHostEvidence maxEntries) fun result code =>
      hostFormat.Along EventFits {} result.events ∧
        result.eventHash = hashEvents result.events ∧ result.events.length < 2 ^ 64 ∧
        UInt64.ofNat result.events.length ≤ maxEntries ∧
        code = encodeHostEvidence result.events (hashEvents result.events) := by
  refine (consumes_readVaruint _).bind fun count c₁ h₁ => ?_
  refine Consumes.require_bind fun hentries => ?_
  refine (consumes_readFixed64 _).bind fun expectedHash c₂ h₂ => ?_
  refine (consumes_collect (I := fun _ => True) (fun cursor _ => consumes_readHostEvent cursor)
    count.toNat trivial).bind ?_
  rintro ⟨events, last⟩ c₃ ⟨hlen, halong, -, h₃⟩
  refine Consumes.require_bind ?_
  rintro hhash
  dsimp only at hlen halong h₃ hhash
  have hcount : UInt64.ofNat events.length = count := by rw [hlen, UInt64.ofNat_toNat]
  refine consumes_pure ⟨halong, rfl, ?_, ?_, ?_⟩
  · rw [hlen]
    exact count.toNat_lt
  · rw [hcount]
    exact UInt64.not_lt.mp hentries
  · rw [encodeHostEvidence, hcount, hhash, h₁, h₂, h₃, List.append_nil]

/-! ### Staying inside the bytes -/

theorem safelyReads_readHostEvent (cursor : EventCursor) :
    SafelyReads (readHostEvent cursor) fun _ => True := by
  refine (safelyReads_readVaruint _).bind fun _ _ => ?_
  refine (safelyReads_readVaruint _).bind fun _ _ => ?_
  refine SafelyReads.require_bind fun _ => ?_
  refine (safelyReads_readVaruint _).bind fun _ _ => ?_
  refine SafelyReads.require_bind fun _ => ?_
  refine (safelyReads_readVaruint _).bind fun _ _ => ?_
  refine SafelyReads.require_bind fun _ => ?_
  refine SafelyReads.require_bind fun _ => ?_
  refine (safelyReads_readIf (safelyReads_readVaruint _)).bind fun _ _ => ?_
  refine (safelyReads_readIf (safelyReads_readVaruint _)).bind fun _ _ => ?_
  refine (safelyReads_readIf (safelyReads_readVaruint _)).bind fun _ _ => ?_
  refine (safelyReads_readIf (safelyReads_readVaruint _)).bind fun _ _ => ?_
  refine (safelyReads_readIf (safelyReads_readVaruint _)).bind fun _ _ => ?_
  refine (safelyReads_readIf (safelyReads_readVaruint _)).bind fun _ _ => ?_
  refine (safelyReads_readIf (safelyReads_readVaruint _)).bind fun _ _ => ?_
  refine (safelyReads_readIf (safelyReads_readVaruint _)).bind fun _ _ => ?_
  refine (safelyReads_readIf (safelyReads_readSint _)).bind fun _ _ => ?_
  refine SafelyReads.require_bind fun _ => ?_
  refine (safelyReads_readIf (safelyReads_readFixed64 _)).bind fun _ _ => ?_
  refine (safelyReads_readIf (safelyReads_readFixed64 _)).bind fun _ _ => ?_
  refine (safelyReads_readIf (safelyReads_readFixed64 _)).bind fun _ _ => ?_
  refine SafelyReads.require_bind fun _ => ?_
  exact SafelyReads.require_bind fun _ => safelyReads_pure trivial

theorem safelyReads_readHostEvidence (maxEntries : UInt64) :
    SafelyReads (readHostEvidence maxEntries) fun _ => True := by
  refine (safelyReads_readVaruint _).bind fun _ _ => ?_
  refine SafelyReads.require_bind fun _ => ?_
  refine (safelyReads_readFixed64 _).bind fun _ _ => ?_
  refine (safelyReads_collect (I := fun _ => True)
    (fun cursor _ => safelyReads_readHostEvent cursor) _ trivial).bind fun _ _ => ?_
  exact SafelyReads.require_bind fun _ => safelyReads_pure trivial

/-! ### The length of an artifact -/

theorem length_encodeEventWith_le (fields : UInt16) (cursor : EventCursor) (event : HostEvent) :
    (encodeEventWith fields cursor event).length ≤ 160 := by
  have hvaruint : ∀ value, (encodeVaruint value).length ≤ 10 := length_encodeVaruint_le
  have hsometimes : ∀ (condition : Bool) (code : List UInt8), code.length ≤ 10 →
      (if condition then code else []).length ≤ 10 := by
    intro condition code hcode
    rcases condition with - | -
    · exact Nat.zero_le _
    · exact hcode
  have hfixed : ∀ value, (encodeFixed64 value).length ≤ 10 := by
    intro value
    rw [length_encodeFixed64]
    decide
  rw [encodeEventWith, List.length_flatten]
  refine (List.sum_le_card_nsmul _ 10 ?_).trans (by simp)
  simp only [List.map_cons, List.map_nil, List.forall_mem_cons]
  exact ⟨hvaruint _, hvaruint _, hvaruint _, hvaruint _, hsometimes _ _ (hvaruint _),
    hsometimes _ _ (hvaruint _), hsometimes _ _ (hvaruint _), hsometimes _ _ (hvaruint _),
    hsometimes _ _ (hvaruint _), hsometimes _ _ (hvaruint _), hsometimes _ _ (hvaruint _),
    hsometimes _ _ (hvaruint _), hsometimes _ _ (hvaruint _), hsometimes _ _ (hfixed _),
    hsometimes _ _ (hfixed _), hsometimes _ _ (hfixed _), fun _ h => absurd h (by simp)⟩

theorem length_encodeAll_le (cursor : EventCursor) (events : List HostEvent) :
    (hostFormat.encodeAll cursor events).length ≤ 160 * events.length := by
  induction events generalizing cursor with
  | nil => exact Nat.le_refl 0
  | cons event events ih =>
      have hhead := length_encodeEventWith_le
        (eventFields event (event.logicalTimeNs - cursor.previousLogicalTime)) cursor event
      have hrest := ih (hostFormat.next cursor event)
      rw [Running.encodeAll, List.length_append, List.length_cons]
      show (encodeEventWith _ cursor event).length + _ ≤ _
      omega

/-! ### The round trip -/

/-- The events have kinds and statuses that are known, and neither their numbers nor their times
go back. -/
structure EventsInOrder (events : List HostEvent) : Prop where
  known : ∀ event ∈ events, knownKind event.kind.value.toUInt64 = true ∧
    knownStatus event.status.value.toUInt64 = true
  ordered : events.IsChain fun event next =>
    event.sequence ≤ next.sequence ∧ event.logicalTimeNs ≤ next.logicalTimeNs

theorem eventsInOrder_iff {events : List HostEvent} :
    EventsInOrder events ↔ hostFormat.Along EventFits {} events := by
  have hfrom : ∀ (cursor : EventCursor) (events : List HostEvent),
      hostFormat.Along EventFits cursor events ↔
        (∀ event ∈ events, knownKind event.kind.value.toUInt64 = true ∧
          knownStatus event.status.value.toUInt64 = true) ∧
        (∀ event ∈ events.head?, cursor.previousSequence ≤ event.sequence ∧
          cursor.previousLogicalTime ≤ event.logicalTimeNs) ∧
        events.IsChain fun event next =>
          event.sequence ≤ next.sequence ∧ event.logicalTimeNs ≤ next.logicalTimeNs := by
    intro cursor events
    induction events generalizing cursor with
    | nil => simp [Running.Along]
    | cons event events ih =>
        rw [Running.Along, ih, List.forall_mem_cons, List.isChain_cons]
        constructor
        · rintro ⟨hfits, hknown, hhead, hchain⟩
          refine ⟨⟨⟨hfits.kind, hfits.status⟩, hknown⟩, ?_, hhead, hchain⟩
          intro first hfirst
          cases hfirst
          exact ⟨hfits.sequence, hfits.logicalTime⟩
        · rintro ⟨⟨⟨hkind, hstatus⟩, hknown⟩, hfirst, hhead, hchain⟩
          obtain ⟨hsequence, htime⟩ := hfirst event rfl
          exact ⟨⟨hkind, hstatus, hsequence, htime⟩, hknown, hhead, hchain⟩
  rw [hfrom]
  constructor
  · rintro ⟨hknown, hordered⟩
    refine ⟨hknown, fun event _ => ⟨?_, ?_⟩, hordered⟩
    · exact UInt64.le_iff_toNat_le.mpr (Nat.zero_le _)
    · exact UInt64.le_iff_toNat_le.mpr (Nat.zero_le _)
  · rintro ⟨hknown, -, hordered⟩
    exact ⟨hknown, hordered⟩

/-- The reading behind `decodeHostReplayEvents`. -/
theorem reads_hostArtifact {events : List HostEvent} (h : hostFormat.Along EventFits {} events)
    (hlen : events.length < 2 ^ 64) :
    Reads (do
        Reading.readHeader .hostEvents ReplayCode.hostBadHeader
        readHostEvidence (~~~0))
      (Artifact.encodeHeader .hostEvents ++ encodeHostEvidence events (hashEvents events))
      { events := events, eventHash := hashEvents events } := by
  refine (reads_readHeader _ _).bind (reads_readHostEvidence h ?_ hlen)
  rw [UInt64.le_iff_toNat_le, allOnes_toNat]
  have := (UInt64.ofNat events.length).toNat_lt
  omega

/-- What an artifact of events in order is. -/
theorem encodeHostReplayEvents_eq {events : List HostEvent}
    (h : hostFormat.Along EventFits {} events)
    (hfits : (Artifact.encodeHeader .hostEvents ++
      encodeHostEvidence events (hashEvents events)).length < 2 ^ 64) :
    encodeHostReplayEvents events =
      Artifact.encodeHeader .hostEvents ++ encodeHostEvidence events (hashEvents events) := by
  have hputs : Puts (Writing.header .hostEvents >>= fun _ =>
      writeHostEvidence events (hashEvents events)) _ () :=
    (puts_header .hostEvents).bind (puts_writeHostEvidence h (hashEvents events))
  have hmax : vectorSink.maxBytes.toNat = 2 ^ 64 - 1 := allOnes_toNat
  have hsave := @Puts.save_eq _ _ hputs vectorSink (fun _ _ => rfl) (by rw [hmax]; omega)
  rw [encodeHostReplayEvents, hsave]

/-- No array of events is longer: an event takes 112 bytes and an object less than 2^63. -/
def kMaxEventSpan : Nat := (2 ^ 63 - 1) / 112

/-- **Events are read back as they were written, and written as they were read; nothing is read
behind the end of an artifact, and nothing may follow it.** -/
theorem hostEvents_roundTrip :
    (∀ events : List HostEvent, EventsInOrder events → events.length ≤ kMaxEventSpan →
      decodeHostReplayEvents (encodeHostReplayEvents events) =
        Except.ok { events := events, eventHash := hashEvents events }) ∧
    (∀ (encoded : List UInt8) (result : HostReplay), encoded.length < 2 ^ 63 →
      decodeHostReplayEvents encoded = Except.ok result →
        encodeHostReplayEvents result.events = encoded) ∧
    (∀ encoded : List UInt8, decodeHostReplayEvents encoded ≠ Except.error Stop.outOfBounds) ∧
    ∀ (encoded extra : List UInt8) (result result' : HostReplay), extra ≠ [] →
      decodeHostReplayEvents encoded = Except.ok result →
        decodeHostReplayEvents (encoded ++ extra) ≠ Except.ok result' := by
  have hconsumes := (consumes_readHeader .hostEvents ReplayCode.hostBadHeader).bind
    (R := fun (result : HostReplay) code => hostFormat.Along EventFits {} result.events ∧
      result.events.length < 2 ^ 64 ∧
      code = Artifact.encodeHeader .hostEvents ++
        encodeHostEvidence result.events (hashEvents result.events))
    fun _ c₁ h₁ => (consumes_readHostEvidence (~~~0)).mono
      fun result c₂ ⟨halong, _, hlen, _, h₂⟩ => ⟨halong, hlen, by rw [h₁, h₂]⟩
  refine ⟨?_, ?_, ?_, ?_⟩
  · intro events hevents hlen
    have halong := eventsInOrder_iff.mp hevents
    have hbody := length_encodeAll_le {} events
    have hcount := length_encodeVaruint_le (UInt64.ofNat events.length)
    have hshort : (Artifact.encodeHeader .hostEvents ++
        encodeHostEvidence events (hashEvents events)).length < 2 ^ 64 := by
      simp only [encodeHostEvidence, List.length_append, length_encodeFixed64,
        show (Artifact.encodeHeader .hostEvents).length = 8 from rfl]
      unfold kMaxEventSpan at hlen
      omega
    rw [encodeHostReplayEvents_eq halong hshort]
    refine (reads_hostArtifact halong ?_).whole_eq _
    unfold kMaxEventSpan at hlen
    omega
  · intro encoded result hlen hrun
    obtain ⟨halong, -, hcode⟩ := hconsumes.of_whole hrun
    rw [encodeHostReplayEvents_eq halong (by rw [← hcode]; omega), ← hcode]
  · intro encoded
    have hsafe := (safelyReads_readHeader .hostEvents ReplayCode.hostBadHeader).bind
      fun _ _ => safelyReads_readHostEvidence (~~~0)
    exact (hsafe.whole _ encoded).inBounds
  · intro encoded extra result result' hextra hrun
    obtain ⟨halong, hlen, hcode⟩ := hconsumes.of_whole hrun
    have htrailing := (reads_hostArtifact halong hlen).whole_trailing hextra
      ReplayCode.hostBadValue
    rw [← hcode] at htrailing
    rw [decodeHostReplayEvents, htrailing]
    exact leave_ne_ok

/-- A draw, and a send that failed a little later. -/
def drawAndSend : List HostEvent :=
  [{ sequence := 1, kind := ⟨1⟩, status := ⟨0⟩, drawId := 300, payloadHash := 9 },
    { sequence := 4, kind := ⟨10⟩, status := ⟨3⟩, taskId := 2, logicalTimeNs := 70, nativeErrno := -32 }]

theorem hostEvents_roundTrip_drawAndSend :
    decodeHostReplayEvents (encodeHostReplayEvents drawAndSend) =
      Except.ok { events := drawAndSend, eventHash := hashEvents drawAndSend } := by
  refine hostEvents_roundTrip.1 drawAndSend ⟨by decide, ?_⟩ (by decide)
  exact List.isChain_pair.mpr (by decide)

end RunD
