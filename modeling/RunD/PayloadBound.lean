/-
What it means that the payloads of an archive are bound to a list of events,
and that the source ranges of its inputs are checked by the one cursor that
only goes forward.

A range is hashed from the host records that come before its input in the
archive.  The cursor finds the same records: it has gone over the first ones,
those ahead of it are the others (`ahead`), and each call of `next` takes the
first of them away.
-/
import RunD.PayloadBind

namespace RunD.PayloadBind

/-! ### Bound archives -/

/-- The host records among the records of an archive. -/
def hostRecords (records : List ArchiveRecord) : List PayloadRecord :=
  (records.map ArchiveRecord.metadata).filter fun metadata => metadata.role = .host

/-- What a host record says of its event. -/
def eventBinding (event : HostEvent) : SourcePayloadBinding where
  eventSequence := event.sequence
  kind := event.kind
  completedBytes := event.completedBytes
  payloadHash := event.payloadHash

/-- Every event that needs a payload has exactly one host record, every host record belongs to such
an event, and the records are in the order of the events. -/
structure HostsBound (events : List HostEvent) (hosts : List PayloadRecord) : Prop where
  required : ∀ event ∈ events, eventRequiresPayload event = true →
    hosts.countP (fun metadata => payloadBinding metadata == eventBinding event) = 1
  owned : ∀ metadata ∈ hosts, ∃ event ∈ events, eventRequiresPayload event = true ∧
    payloadBinding metadata = eventBinding event
  ordered : hosts.Pairwise fun a b => a.eventSequence < b.eventSequence

/-- The payloads of a range, one after the other. -/
def nextInList : List SourcePayloadBinding →
    Option (SourcePayloadBinding × List SourcePayloadBinding)
  | [] => none
  | payload :: payloads => some (payload, payloads)

/-- The hash of the source range that an input names, computed again from the events and from the
host records before the input. -/
def recomputedSourceHash (events : List HostEvent) (before : List ArchiveRecord)
    (metadata : PayloadRecord) : Option UInt64 :=
  (computeSourceRangeHash nextInList metadata.sourceEventOffset
    ((events.drop metadata.sourceEventOffset.toNat).take metadata.sourceEventCount.toNat)
    metadata.sourcePayloadOffset metadata.sourcePayloadCount
    (((hostRecords before).map payloadBinding).drop metadata.sourcePayloadOffset.toNat)).map
      Prod.fst

/-- The source range of an input: its events are there, behind those of the inputs before, its
payloads are among the host records before it, and its hash is the one computed again. -/
structure SourceRangeBound (events : List HostEvent) (before : List ArchiveRecord)
    (metadata : PayloadRecord) : Prop where
  events_within :
    metadata.sourceEventOffset.toNat + metadata.sourceEventCount.toNat ≤ events.length
  events_after : ∀ earlier ∈ before, earlier.metadata.role = .input →
    earlier.metadata.sourceEventOffset.toNat + earlier.metadata.sourceEventCount.toNat ≤
      metadata.sourceEventOffset.toNat
  payloads_within : metadata.sourcePayloadOffset.toNat + metadata.sourcePayloadCount.toNat ≤
    (hostRecords before).length
  hash_eq : recomputedSourceHash events before metadata = some metadata.sourceHash

/-- The event of a diagnostic record. -/
def DiagnosticOf (event : HostEvent) (diagnostic : DiagnosticRecord) : Prop :=
  event.sequence = diagnostic.eventSequence ∧ event.kind = diagnostic.kind ∧
    event.status = statusOk ∧ event.completedBytes = diagnostic.byteCount ∧
    event.payloadHash = diagnostic.payloadHash

/-- The archive is bound to the events. -/
structure Bound (events : List HostEvent) (archive : PayloadArchive) : Prop where
  hosts : HostsBound events (hostRecords archive.records)
  inputs : ∀ before record after, archive.records = before ++ record :: after →
    record.metadata.role = .input → SourceRangeBound events before record.metadata
  diagnostics : ∀ diagnostic ∈ archive.diagnostic.records,
    ∃ event ∈ events, DiagnosticOf event diagnostic

/-- What a pass that never goes back asks for besides: sequences that are not zero, payload ranges
behind one another, and diagnostic records in order. -/
structure Forward (archive : PayloadArchive) : Prop where
  hosts_numbered : ∀ metadata ∈ hostRecords archive.records, metadata.eventSequence ≠ 0
  payloads_after : ∀ before record after, archive.records = before ++ record :: after →
    record.metadata.role = .input → ∀ earlier ∈ before, earlier.metadata.role = .input →
      earlier.metadata.sourcePayloadOffset.toNat + earlier.metadata.sourcePayloadCount.toNat ≤
        record.metadata.sourcePayloadOffset.toNat
  diagnostics_numbered : ∀ diagnostic ∈ archive.diagnostic.records, diagnostic.eventSequence ≠ 0
  diagnostics_ordered :
    archive.diagnostic.records.Pairwise fun a b => a.eventSequence < b.eventSequence

theorem hostRecords_append (records more : List ArchiveRecord) :
    hostRecords (records ++ more) = hostRecords records ++ hostRecords more := by
  rw [hostRecords, List.map_append, List.filter_append]
  rfl

theorem hostRecords_cons_host {record : ArchiveRecord} (h : record.metadata.role = .host)
    (records : List ArchiveRecord) :
    hostRecords (record :: records) = record.metadata :: hostRecords records := by
  rw [hostRecords, List.map_cons, List.filter_cons, if_pos (decide_eq_true h)]
  rfl

theorem hostRecords_cons_input {record : ArchiveRecord} (h : record.metadata.role = .input)
    (records : List ArchiveRecord) : hostRecords (record :: records) = hostRecords records := by
  have hnot : ¬ decide (record.metadata.role = .host) = true := by
    rw [decide_eq_true_iff, h]
    exact Role.noConfusion
  rw [hostRecords, List.map_cons, List.filter_cons, if_neg hnot]
  rfl

/-! ### The cursor -/

namespace ArchiveHostCursor

/-- The host records up to the limit that the cursor has not gone over. -/
def ahead (cursor : ArchiveHostCursor) : List SourcePayloadBinding :=
  (hostRecords ((cursor.records.take cursor.physicalLimit).drop cursor.physical)).map
    payloadBinding

/-- The cursor is within the records and has counted the host records it went over. -/
structure Seen (cursor : ArchiveHostCursor) : Prop where
  physical_le : cursor.physical ≤ cursor.physicalLimit
  limit_le : cursor.physicalLimit ≤ cursor.records.length
  logical_eq : cursor.logical = (hostRecords (cursor.records.take cursor.physical)).length

/-- One cursor is another one that has gone over some more host records. -/
structure Advanced (cursor later : ArchiveHostCursor) (count : Nat) : Prop where
  seen : later.Seen
  ahead_eq : later.ahead = cursor.ahead.drop count
  logical_eq : later.logical = cursor.logical + count
  records_eq : later.records = cursor.records
  limit_eq : later.physicalLimit = cursor.physicalLimit

variable {cursor later : ArchiveHostCursor}

theorem Seen.advanced_zero (h : cursor.Seen) : Advanced cursor cursor 0 :=
  ⟨h, rfl, rfl, rfl, rfl⟩

theorem Advanced.trans {last : ArchiveHostCursor} {count more : Nat}
    (h : Advanced cursor later count) (h' : Advanced later last more) :
    Advanced cursor last (count + more) where
  seen := h'.seen
  ahead_eq := by rw [h'.ahead_eq, h.ahead_eq, List.drop_drop]
  logical_eq := by rw [h'.logical_eq, h.logical_eq, Nat.add_assoc]
  records_eq := h'.records_eq.trans h.records_eq
  limit_eq := h'.limit_eq.trans h.limit_eq

/-- The record that comes next. -/
theorem Seen.record (h : cursor.Seen) (hlt : cursor.physical < cursor.physicalLimit) :
    ∃ record, cursor.records[cursor.physical]? = some record ∧
      (cursor.records.take cursor.physicalLimit).drop cursor.physical =
        record :: (cursor.records.take cursor.physicalLimit).drop (cursor.physical + 1) ∧
      cursor.records.take (cursor.physical + 1) =
        cursor.records.take cursor.physical ++ [record] := by
  have hlen : cursor.physical < cursor.records.length := Nat.lt_of_lt_of_le hlt h.limit_le
  refine ⟨cursor.records[cursor.physical], List.getElem?_eq_getElem hlen, ?_,
    List.take_succ_eq_append_getElem hlen⟩
  rw [List.drop_eq_getElem_cons (by rw [List.length_take]; omega), List.getElem_take]

/-- `next` returns the first host record ahead. -/
theorem nextFrom_spec {turns : Nat} (h : cursor.Seen)
    (hturns : turns = cursor.physicalLimit - cursor.physical) :
    (cursor.ahead = [] → cursor.nextFrom turns = none) ∧
      ∀ payload payloads, cursor.ahead = payload :: payloads →
        ∃ later, cursor.nextFrom turns = some (payload, later) ∧ Advanced cursor later 1 := by
  induction turns generalizing cursor with
  | zero =>
      refine ⟨fun _ => rfl, fun payload payloads hahead => ?_⟩
      have hnone : (cursor.records.take cursor.physicalLimit).drop cursor.physical = [] := by
        apply List.drop_eq_nil_of_le
        rw [List.length_take]
        omega
      rw [ahead, hnone] at hahead
      cases hahead
  | succ turns ih =>
      obtain ⟨record, hrecord, hdrop, htake⟩ := h.record (by omega)
      rw [nextFrom, hrecord]
      dsimp only
      cases hrole : record.metadata.role with
      | host =>
          have hcons : cursor.ahead = payloadBinding record.metadata ::
              (hostRecords ((cursor.records.take cursor.physicalLimit).drop
                (cursor.physical + 1))).map payloadBinding := by
            rw [ahead, hdrop, hostRecords_cons_host hrole, List.map_cons]
          rw [if_neg (not_not_intro rfl)]
          refine ⟨fun hnil => absurd (hcons.symm.trans hnil) (List.cons_ne_nil _ _), ?_⟩
          intro payload payloads hahead
          rw [hcons] at hahead
          injection hahead with hpayload hpayloads
          subst hpayload
          refine ⟨_, rfl, ⟨?_, h.limit_le, ?_⟩, ?_, rfl, rfl, rfl⟩
          · show cursor.physical + 1 ≤ cursor.physicalLimit
            omega
          · show cursor.logical + 1 =
              (hostRecords (cursor.records.take (cursor.physical + 1))).length
            rw [htake, hostRecords_append, hostRecords_cons_host hrole, List.length_append,
              h.logical_eq]
            rfl
          · rw [hcons]
            rfl
      | input =>
          rw [if_pos (show Role.input ≠ Role.host from Role.noConfusion)]
          have hseen : Seen { cursor with physical := cursor.physical + 1 } := by
            refine ⟨?_, h.limit_le, ?_⟩
            · show cursor.physical + 1 ≤ cursor.physicalLimit
              omega
            · show cursor.logical = (hostRecords (cursor.records.take (cursor.physical + 1))).length
              rw [htake, hostRecords_append, hostRecords_cons_input hrole, h.logical_eq]
              rw [List.length_append]
              rfl
          have hahead : ahead { cursor with physical := cursor.physical + 1 } = cursor.ahead := by
            rw [ahead, ahead, hdrop, hostRecords_cons_input hrole]
          obtain ⟨hnil, hcons⟩ := ih hseen
            (by show turns = cursor.physicalLimit - (cursor.physical + 1); omega)
          rw [hahead] at hnil hcons
          refine ⟨hnil, fun payload payloads hpayload => ?_⟩
          obtain ⟨later, hlater, hadvanced⟩ := hcons payload payloads hpayload
          refine ⟨later, hlater, hadvanced.seen, ?_, hadvanced.logical_eq, hadvanced.records_eq,
            hadvanced.limit_eq⟩
          rw [hadvanced.ahead_eq, hahead]

theorem next_of_ahead_nil (h : cursor.Seen) (hahead : cursor.ahead = []) : cursor.next = none :=
  (nextFrom_spec h rfl).1 hahead

theorem next_of_ahead_cons (h : cursor.Seen) {payload : SourcePayloadBinding}
    {payloads : List SourcePayloadBinding} (hahead : cursor.ahead = payload :: payloads) :
    ∃ later, cursor.next = some (payload, later) ∧ Advanced cursor later 1 :=
  (nextFrom_spec h rfl).2 payload payloads hahead

/-- The loop of `seek` goes over as many host records as there are. -/
theorem seekFrom_spec (h : cursor.Seen) (count : Nat) :
    (count ≤ cursor.ahead.length → ∃ later, cursor.seekFrom count = some later ∧
      Advanced cursor later count) ∧
    (cursor.ahead.length < count → cursor.seekFrom count = none) := by
  induction count generalizing cursor with
  | zero =>
      exact ⟨fun _ => ⟨cursor, rfl, h.advanced_zero⟩,
        fun hlt => absurd hlt (Nat.not_lt_zero _)⟩
  | succ count ih =>
      rw [seekFrom]
      cases hahead : cursor.ahead with
      | nil =>
          rw [next_of_ahead_nil h hahead]
          exact ⟨fun hle => absurd hle (Nat.not_succ_le_zero _), fun _ => rfl⟩
      | cons payload payloads =>
          obtain ⟨later, hnext, hadvanced⟩ := next_of_ahead_cons h hahead
          obtain ⟨henough, hfew⟩ := ih hadvanced.seen
          have hlength : later.ahead.length = payloads.length := by
            rw [hadvanced.ahead_eq, hahead]
            rfl
          rw [hnext]
          rw [hlength] at henough hfew
          constructor
          · intro hle
            obtain ⟨last, hlast, hadvanced'⟩ := henough (Nat.le_of_succ_le_succ hle)
            refine ⟨last, hlast, ?_⟩
            rw [Nat.add_comm]
            exact hadvanced.trans hadvanced'
          · intro hlt
            exact hfew (Nat.lt_of_succ_lt_succ hlt)

/-- The host records before the limit are those gone over and those ahead. -/
theorem Seen.hosts_eq (h : cursor.Seen) :
    (hostRecords (cursor.records.take cursor.physicalLimit)).map payloadBinding =
      (hostRecords (cursor.records.take cursor.physical)).map payloadBinding ++ cursor.ahead := by
  have hsplit : cursor.records.take cursor.physicalLimit =
      cursor.records.take cursor.physical ++
        (cursor.records.take cursor.physicalLimit).drop cursor.physical := by
    conv_lhs => rw [← List.take_append_drop cursor.physical
      (cursor.records.take cursor.physicalLimit), List.take_take,
      Nat.min_eq_left h.physical_le]
  rw [hsplit, hostRecords_append, List.map_append]
  rfl

theorem Seen.ahead_eq_drop (h : cursor.Seen) :
    cursor.ahead = ((hostRecords (cursor.records.take cursor.physicalLimit)).map
      payloadBinding).drop cursor.logical := by
  have hlen : ((hostRecords (cursor.records.take cursor.physical)).map payloadBinding).length =
      cursor.logical := by
    rw [List.length_map, h.logical_eq]
  rw [h.hosts_eq, ← hlen, List.drop_left]

theorem Seen.logical_le (h : cursor.Seen) :
    cursor.logical ≤ (hostRecords (cursor.records.take cursor.physicalLimit)).length := by
  have hlen := congrArg List.length h.hosts_eq
  rw [List.length_append, List.length_map, List.length_map, ← h.logical_eq] at hlen
  omega

/-- The cursor with its limit set behind where it stands. -/
theorem Seen.limit (h : cursor.Seen) {index : Nat} (hlimit : cursor.physicalLimit ≤ index)
    (hindex : index ≤ cursor.records.length) :
    cursor.limit index = some { cursor with physicalLimit := index } ∧
      Seen { cursor with physicalLimit := index } := by
  have hle := h.physical_le
  have hphysical : cursor.physical ≤ index := Nat.le_trans hle hlimit
  refine ⟨?_, hphysical, hindex, h.logical_eq⟩
  rw [ArchiveHostCursor.limit, if_neg (by omega)]

/-- The cursor finds a place that it has not gone past, if there is such a place. -/
theorem Seen.seek_spec (h : cursor.Seen) (offset : Nat) :
    (cursor.logical ≤ offset →
      offset ≤ (hostRecords (cursor.records.take cursor.physicalLimit)).length →
      ∃ later, cursor.seek offset = some later ∧
        Advanced cursor later (offset - cursor.logical)) ∧
    (¬ (cursor.logical ≤ offset ∧
      offset ≤ (hostRecords (cursor.records.take cursor.physicalLimit)).length) →
      cursor.seek offset = none) := by
  have hahead : cursor.ahead.length =
      (hostRecords (cursor.records.take cursor.physicalLimit)).length - cursor.logical := by
    rw [h.ahead_eq_drop, List.length_drop, List.length_map]
  have hlogical := h.logical_le
  obtain ⟨henough, hfew⟩ := seekFrom_spec h (offset - cursor.logical)
  rw [ArchiveHostCursor.seek]
  constructor
  · intro hle hwithin
    rw [if_neg (by omega)]
    exact henough (by omega)
  · intro hnot
    by_cases hback : offset < cursor.logical
    · rw [if_pos hback]
    · rw [if_neg hback]
      exact hfew (by omega)

end ArchiveHostCursor

/-! ### The hash of a source range -/

/-- The payloads that the cursor hands over are those of the list ahead of it. -/
theorem hashSourcePayloads_cursor {cursor : ArchiveHostCursor} (h : cursor.Seen) (count : Nat)
    (events : List HostEvent) (hash : UInt64) :
    (hashSourcePayloads nextInList count cursor.ahead events hash = none →
      hashSourcePayloads ArchiveHostCursor.next count cursor events hash = none) ∧
    ∀ out rest, hashSourcePayloads nextInList count cursor.ahead events hash = some (out, rest) →
      count ≤ cursor.ahead.length ∧
      ∃ later, hashSourcePayloads ArchiveHostCursor.next count cursor events hash =
        some (out, later) ∧ ArchiveHostCursor.Advanced cursor later count := by
  induction count generalizing cursor events hash with
  | zero =>
      refine ⟨fun hnone => absurd hnone (Option.some_ne_none _), fun out rest hsome => ?_⟩
      rw [hashSourcePayloads] at hsome
      cases hsome
      exact ⟨Nat.zero_le _, cursor, rfl, h.advanced_zero⟩
  | succ count ih =>
      rw [hashSourcePayloads, hashSourcePayloads]
      cases hahead : cursor.ahead with
      | nil =>
          rw [ArchiveHostCursor.next_of_ahead_nil h hahead]
          exact ⟨fun _ => rfl, fun out rest hsome => by cases hsome⟩
      | cons payload payloads =>
          obtain ⟨later, hnext, hadvanced⟩ := ArchiveHostCursor.next_of_ahead_cons h hahead
          have hlater : later.ahead = payloads := by
            rw [hadvanced.ahead_eq, hahead]
            rfl
          rw [hnext, nextInList]
          dsimp only
          cases events.dropWhile fun event => event.sequence < payload.eventSequence with
          | nil => exact ⟨fun _ => rfl, fun out rest hsome => by cases hsome⟩
          | cons event events =>
              dsimp only
              by_cases hother : event.sequence ≠ payload.eventSequence ∨
                  event.kind ≠ payload.kind ∨ event.completedBytes ≠ payload.completedBytes ∨
                  event.payloadHash ≠ payload.payloadHash
              · rw [if_pos hother, if_pos hother]
                exact ⟨fun _ => rfl, fun out rest hsome => by cases hsome⟩
              · rw [if_neg hother, if_neg hother, ← hlater]
                obtain ⟨hnone, hsome⟩ := ih hadvanced.seen events (appendPayload hash payload)
                refine ⟨hnone, fun out rest hout => ?_⟩
                obtain ⟨hle, last, hlast, hadvanced'⟩ := hsome out rest hout
                refine ⟨Nat.succ_le_succ hle, last, hlast, ?_⟩
                rw [Nat.add_comm]
                exact hadvanced.trans hadvanced'

/-- Events with the sequences behind an offset do not go past the words. -/
theorem hashSourceEvents_fits {events : List HostEvent} {expectedSequence hash out : UInt64}
    (h : hashSourceEvents events expectedSequence hash = some out) :
    expectedSequence.toNat + events.length < 2 ^ 64 := by
  induction events generalizing expectedSequence hash with
  | nil => exact expectedSequence.toNat_lt
  | cons event events ih =>
      rw [hashSourceEvents] at h
      by_cases hbad : checkedAdd expectedSequence 1 = false ∨ event.taskId ≠ 0 ∨
          event.sequence ≠ expectedSequence + 1
      · rw [if_pos hbad] at h
        cases h
      · rw [if_neg hbad] at h
        have hadd : checkedAdd expectedSequence 1 = true := by
          by_contra hno
          exact hbad (Or.inl (Bool.eq_false_iff.mpr hno))
        have hnext := ih h
        rw [toNat_add_of_fits (checkedAdd_iff.mp hadd), UInt64.toNat_one] at hnext
        rw [List.length_cons]
        omega

theorem computeSourceRangeHash_cursor {cursor : ArchiveHostCursor} (h : cursor.Seen)
    (eventOffset : UInt64) (events : List HostEvent) (payloadOffset payloadCount : UInt64) :
    (computeSourceRangeHash nextInList eventOffset events payloadOffset payloadCount
        cursor.ahead = none →
      computeSourceRangeHash ArchiveHostCursor.next eventOffset events payloadOffset payloadCount
        cursor = none) ∧
    ∀ out rest, computeSourceRangeHash nextInList eventOffset events payloadOffset payloadCount
        cursor.ahead = some (out, rest) →
      payloadCount.toNat ≤ cursor.ahead.length ∧ eventOffset.toNat + events.length < 2 ^ 64 ∧
      ∃ later, computeSourceRangeHash ArchiveHostCursor.next eventOffset events payloadOffset
        payloadCount cursor = some (out, later) ∧
        ArchiveHostCursor.Advanced cursor later payloadCount.toNat := by
  unfold computeSourceRangeHash
  by_cases hover : checkedAdd payloadOffset payloadCount = false
  · rw [if_pos hover, if_pos hover]
    exact ⟨fun _ => rfl, fun out rest hsome => by cases hsome⟩
  · rw [if_neg hover, if_neg hover]
    cases hevents : hashSourceEvents events eventOffset (beginSourceRange eventOffset
        (UInt64.ofNat events.length) payloadOffset payloadCount) with
    | none => exact ⟨fun _ => rfl, fun out rest hsome => by cases hsome⟩
    | some hash =>
        obtain ⟨hnone, hsome⟩ := hashSourcePayloads_cursor h payloadCount.toNat events hash
        refine ⟨hnone, fun out rest hout => ?_⟩
        obtain ⟨hle, hlater⟩ := hsome out rest hout
        exact ⟨hle, hashSourceEvents_fits hevents, hlater⟩

/-- What an input asks for when the cursor and the event end stand where they do. -/
structure RangeFits (events : List HostEvent) (before : List ArchiveRecord)
    (metadata : PayloadRecord) (logical : Nat) (eventEnd : UInt64) : Prop where
  events_within :
    metadata.sourceEventOffset.toNat + metadata.sourceEventCount.toNat ≤ events.length
  eventEnd_le : eventEnd.toNat ≤ metadata.sourceEventOffset.toNat
  logical_le : logical ≤ metadata.sourcePayloadOffset.toNat
  payloads_within : metadata.sourcePayloadOffset.toNat + metadata.sourcePayloadCount.toNat ≤
    (hostRecords before).length

/-- Where the cursor and the event end stand behind an input. -/
structure RangeDone (metadata : PayloadRecord) (index : Nat) (payloads later : ArchiveHostCursor)
    (eventEnd : UInt64) : Prop where
  seen : later.Seen
  records_eq : later.records = payloads.records
  limit_eq : later.physicalLimit = index
  logical_eq : later.logical =
    metadata.sourcePayloadOffset.toNat + metadata.sourcePayloadCount.toNat
  eventEnd_eq : eventEnd.toNat =
    metadata.sourceEventOffset.toNat + metadata.sourceEventCount.toNat

section Range

variable {index : Nat} {payloads : ArchiveHostCursor}

/-- **The one cursor and the definition agree on an input.** -/
theorem sourceRangeHash_spec (events : List HostEvent) (metadata : PayloadRecord)
    (eventEnd hash : UInt64) (h : payloads.Seen) (hlimit : payloads.physicalLimit ≤ index)
    (hindex : index ≤ payloads.records.length) :
    (RangeFits events (payloads.records.take index) metadata payloads.logical eventEnd →
      recomputedSourceHash events (payloads.records.take index) metadata = some hash →
      ∃ later eventEnd', sourceRangeHash events metadata index payloads eventEnd =
          some (hash, later, eventEnd') ∧
        RangeDone metadata index payloads later eventEnd') ∧
    ∀ later eventEnd', sourceRangeHash events metadata index payloads eventEnd =
        some (hash, later, eventEnd') →
      RangeFits events (payloads.records.take index) metadata payloads.logical eventEnd ∧
        recomputedSourceHash events (payloads.records.take index) metadata = some hash := by
  obtain ⟨hset, hseen⟩ := h.limit hlimit hindex
  obtain ⟨hseek, hnoseek⟩ := hseen.seek_spec metadata.sourcePayloadOffset.toNat
  by_cases hevents : metadata.sourceEventOffset.toNat > events.length ∨
      metadata.sourceEventCount.toNat > events.length - metadata.sourceEventOffset.toNat ∨
      metadata.sourceEventOffset < eventEnd
  · -- the events are not where they must be
    rw [sourceRangeHash, if_pos hevents]
    refine ⟨fun hfits _ => ?_, fun later eventEnd' hsome => by cases hsome⟩
    have hwithin := hfits.events_within
    have hend := hfits.eventEnd_le
    rw [UInt64.lt_iff_toNat_lt] at hevents
    omega
  · rw [UInt64.lt_iff_toNat_lt] at hevents
    rw [sourceRangeHash, if_neg (by rw [UInt64.lt_iff_toNat_lt]; exact hevents), hset]
    dsimp only [bind, Option.bind]
    by_cases hplace : payloads.logical ≤ metadata.sourcePayloadOffset.toNat ∧
        metadata.sourcePayloadOffset.toNat ≤ (hostRecords (payloads.records.take index)).length
    · obtain ⟨found, hfound, hadvanced⟩ := hseek hplace.1 hplace.2
      have hahead : found.ahead = ((hostRecords (payloads.records.take index)).map
          payloadBinding).drop metadata.sourcePayloadOffset.toNat := by
        rw [hadvanced.ahead_eq, hseen.ahead_eq_drop, List.drop_drop]
        congr 1
        show payloads.logical + (metadata.sourcePayloadOffset.toNat - payloads.logical) = _
        omega
      have hlength : ((events.drop metadata.sourceEventOffset.toNat).take
          metadata.sourceEventCount.toNat).length = metadata.sourceEventCount.toNat := by
        rw [List.length_take, List.length_drop]
        omega
      obtain ⟨hnone, hsome⟩ := computeSourceRangeHash_cursor hadvanced.seen
        metadata.sourceEventOffset ((events.drop metadata.sourceEventOffset.toNat).take
          metadata.sourceEventCount.toNat) metadata.sourcePayloadOffset
        metadata.sourcePayloadCount
      rw [hfound]
      dsimp only
      rw [recomputedSourceHash, ← hahead]
      cases hcompute : computeSourceRangeHash nextInList metadata.sourceEventOffset
          ((events.drop metadata.sourceEventOffset.toNat).take metadata.sourceEventCount.toNat)
          metadata.sourcePayloadOffset metadata.sourcePayloadCount found.ahead with
      | none =>
          rw [hnone hcompute]
          exact ⟨fun _ hno => (Option.some_ne_none _ hno.symm).elim,
            fun later eventEnd' hno => (Option.some_ne_none _ hno.symm).elim⟩
      | some result =>
          obtain ⟨out, rest⟩ := result
          obtain ⟨hle, hfits64, later, hlater, hadvanced'⟩ := hsome out rest hcompute
          rw [hlength] at hfits64
          have hcount : metadata.sourcePayloadOffset.toNat + metadata.sourcePayloadCount.toNat ≤
              (hostRecords (payloads.records.take index)).length := by
            rw [hahead, List.length_drop, List.length_map] at hle
            omega
          rw [hlater]
          dsimp only
          rw [if_neg (by rw [checkedAdd_iff.mpr hfits64]; exact Bool.noConfusion)]
          constructor
          · intro _ hhash
            obtain rfl : out = hash := Option.some.inj hhash
            refine ⟨later, _, rfl, hadvanced'.seen, ?_, ?_, ?_, toNat_add_of_fits hfits64⟩
            · rw [hadvanced'.records_eq, hadvanced.records_eq]
            · rw [hadvanced'.limit_eq, hadvanced.limit_eq]
            · rw [hadvanced'.logical_eq, hadvanced.logical_eq]
              show payloads.logical + (metadata.sourcePayloadOffset.toNat - payloads.logical) +
                metadata.sourcePayloadCount.toNat = _
              omega
          · intro later' eventEnd' hout
            injection hout with hout
            injection hout with hhash
            refine ⟨⟨by omega, by omega, hplace.1, hcount⟩, ?_⟩
            rw [← hhash]
            rfl
    · -- the cursor has no such place
      rw [hnoseek hplace]
      refine ⟨fun hfits _ => ?_, fun later eventEnd' hsome => by cases hsome⟩
      have hle := hfits.logical_le
      have hwithin := hfits.payloads_within
      exact absurd ⟨hle, by omega⟩ hplace

end Range

end RunD.PayloadBind
