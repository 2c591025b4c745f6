/-
The pass that binds payloads accepts exactly the archives that are bound.

After some records of the archive (`Walked`) the events behind the host event
index still have to get their records, the event end is the greatest one of the
inputs so far, and the cursor stands at the greatest end of their payloads.  So
what a record must fulfil for the pass to go on is what it must fulfil in the
archive (`Good`), and the pass over all records ends if they are all good.
-/
import Mathlib.Data.List.Nodup
import RunD.PayloadBound

namespace RunD.PayloadBind

/-! ### Host records -/

/-- The events that need a payload. -/
def requiredEvents (events : List HostEvent) : List HostEvent :=
  events.filter eventRequiresPayload

theorem requiredEvents_append_of_none {skipped : List HostEvent}
    (h : ∀ event ∈ skipped, eventRequiresPayload event = false) (events : List HostEvent) :
    requiredEvents (skipped ++ events) = requiredEvents events := by
  have hnone : skipped.filter eventRequiresPayload = [] := by
    apply List.filter_eq_nil_iff.mpr
    intro event hevent
    rw [h event hevent]
    exact Bool.false_ne_true
  rw [requiredEvents, List.filter_append, hnone, List.nil_append]
  rfl

theorem requiredEvents_cons {event : HostEvent} (h : eventRequiresPayload event = true)
    (events : List HostEvent) :
    requiredEvents (event :: events) = event :: requiredEvents events :=
  List.filter_cons_of_pos h

theorem split_requiredEvents {events more : List HostEvent} {event : HostEvent}
    (h : requiredEvents events = event :: more) :
    ∃ skipped rest, events = skipped ++ event :: rest ∧
      (∀ other ∈ skipped, eventRequiresPayload other = false) ∧
      eventRequiresPayload event = true := by
  induction events with
  | nil => cases h
  | cons first events ih =>
      by_cases hfirst : eventRequiresPayload first = true
      · rw [requiredEvents_cons hfirst] at h
        injection h with hevent
        subst hevent
        exact ⟨[], events, rfl, fun other hother => absurd hother (by simp), hfirst⟩
      · have hskip : requiredEvents (first :: events) = requiredEvents events :=
          List.filter_cons_of_neg hfirst
        rw [hskip] at h
        obtain ⟨skipped, rest, hsplit, hnone, hevent⟩ := ih h
        refine ⟨first :: skipped, rest, by rw [hsplit, List.cons_append], ?_, hevent⟩
        intro other hother
        rcases List.mem_cons.mp hother with rfl | hother
        · exact Bool.eq_false_iff.mpr hfirst
        · exact hnone other hother

theorem skipEvents_split {sequence : UInt64} {events rest : List HostEvent}
    (h : skipEvents sequence events = .ok rest) :
    ∃ skipped, events = skipped ++ rest ∧
      ∀ event ∈ skipped, eventRequiresPayload event = false := by
  induction events with
  | nil =>
      rw [skipEvents] at h
      cases h
      exact ⟨[], rfl, fun event hevent => absurd hevent (by simp)⟩
  | cons event events ih =>
      rw [skipEvents] at h
      by_cases hbefore : event.sequence < sequence
      · rw [if_pos hbefore] at h
        by_cases hrequired : eventRequiresPayload event = true
        · rw [if_pos hrequired] at h
          cases h
        · rw [if_neg hrequired] at h
          obtain ⟨skipped, hsplit, hnone⟩ := ih h
          refine ⟨event :: skipped, by rw [hsplit, List.cons_append], ?_⟩
          intro other hother
          rcases List.mem_cons.mp hother with rfl | hother
          · exact Bool.eq_false_iff.mpr hrequired
          · exact hnone other hother
      · rw [if_neg hbefore] at h
        cases h
        exact ⟨[], rfl, fun event hevent => absurd hevent (by simp)⟩

theorem skipEvents_of_split {skipped rest : List HostEvent} {event : HostEvent}
    (hnone : ∀ other ∈ skipped, eventRequiresPayload other = false)
    (hbefore : ∀ other ∈ skipped, other.sequence < event.sequence) :
    skipEvents event.sequence (skipped ++ event :: rest) = .ok (event :: rest) := by
  induction skipped with
  | nil =>
      rw [List.nil_append, skipEvents, if_neg (UInt64.lt_irrefl _)]
  | cons first skipped ih =>
      rw [List.cons_append, skipEvents, if_pos (hbefore first (by simp)),
        if_neg (by rw [hnone first (by simp)]; exact Bool.false_ne_true)]
      exact ih (fun other hother => hnone other (List.mem_cons_of_mem _ hother))
        (fun other hother => hbefore other (List.mem_cons_of_mem _ hother))

theorem payloadBinding_eq_iff {metadata : PayloadRecord} {event : HostEvent} :
    payloadBinding metadata = eventBinding event ↔
      event.sequence = metadata.eventSequence ∧ event.kind = metadata.kind ∧
        event.completedBytes = metadata.completedBytes ∧
        event.payloadHash = metadata.payloadHash := by
  rw [payloadBinding, eventBinding, SourcePayloadBinding.mk.injEq]
  constructor
  · rintro ⟨hsequence, hkind, hbytes, hhash⟩
    exact ⟨hsequence.symm, hkind.symm, hbytes.symm, hhash.symm⟩
  · rintro ⟨hsequence, hkind, hbytes, hhash⟩
    exact ⟨hsequence.symm, hkind.symm, hbytes.symm, hhash.symm⟩

/-- What a host record finds. -/
theorem bindHost_split {metadata : PayloadRecord} {now later : BindState}
    (h : bindHost metadata now = .ok later) :
    ∃ skipped event rest, now.hostEvents = skipped ++ event :: rest ∧
      (∀ other ∈ skipped, eventRequiresPayload other = false) ∧
      eventRequiresPayload event = true ∧ payloadBinding metadata = eventBinding event ∧
      now.lastHostPayloadSequence < metadata.eventSequence ∧
      later = { now with
        hostEvents := rest, lastHostPayloadSequence := metadata.eventSequence } := by
  rw [bindHost] at h
  by_cases hold : metadata.eventSequence ≤ now.lastHostPayloadSequence
  · rw [if_pos hold] at h
    cases h
  · rw [if_neg hold] at h
    cases hskip : skipEvents metadata.eventSequence now.hostEvents with
    | error code =>
        rw [hskip] at h
        cases h
    | ok found =>
        rw [hskip] at h
        obtain ⟨skipped, hsplit, hnone⟩ := skipEvents_split hskip
        cases found with
        | nil => cases h
        | cons event rest =>
            dsimp only at h
            by_cases hsequence : event.sequence ≠ metadata.eventSequence
            · rw [if_pos hsequence] at h
              cases h
            · rw [if_neg hsequence] at h
              by_cases hother : eventRequiresPayload event = false ∨ event.kind ≠ metadata.kind ∨
                  event.completedBytes ≠ metadata.completedBytes ∨
                  event.payloadHash ≠ metadata.payloadHash
              · rw [if_pos hother] at h
                cases h
              · rw [if_neg hother] at h
                push Not at hsequence hother
                obtain ⟨hrequired, hkind, hbytes, hhash⟩ := hother
                rw [ne_eq, Bool.not_eq_false] at hrequired
                injection h with h
                exact ⟨skipped, event, rest, hsplit, hnone, hrequired,
                  payloadBinding_eq_iff.mpr ⟨hsequence, hkind, hbytes, hhash⟩,
                  UInt64.not_le.mp hold, h.symm⟩

/-- A host record whose event comes next is bound to it. -/
theorem bindHost_of_split {metadata : PayloadRecord} {now : BindState}
    {skipped rest : List HostEvent} {event : HostEvent}
    (hsplit : now.hostEvents = skipped ++ event :: rest)
    (hordered : now.hostEvents.Pairwise fun a b => a.sequence < b.sequence)
    (hnone : ∀ other ∈ skipped, eventRequiresPayload other = false)
    (hrequired : eventRequiresPayload event = true)
    (hbinding : payloadBinding metadata = eventBinding event)
    (hlast : now.lastHostPayloadSequence < metadata.eventSequence) :
    ∃ later, bindHost metadata now = .ok later := by
  obtain ⟨hsequence, hkind, hbytes, hhash⟩ := payloadBinding_eq_iff.mp hbinding
  have hbefore : ∀ other ∈ skipped, other.sequence < event.sequence := by
    intro other hother
    rw [hsplit] at hordered
    exact (List.pairwise_append.mp hordered).2.2 other hother event (by simp)
  refine ⟨{ now with
    hostEvents := rest, lastHostPayloadSequence := metadata.eventSequence }, ?_⟩
  rw [bindHost, if_neg (UInt64.not_le.mpr hlast), hsplit, ← hsequence,
    skipEvents_of_split hnone hbefore]
  dsimp only
  rw [if_neg (not_not_intro rfl), if_neg]
  rintro (hr | hk | hb | hh)
  · rw [hrequired] at hr
    cases hr
  · exact hk hkind
  · exact hb hbytes
  · exact hh hhash

/-! ### Records that are good -/

/-- An input is bound, and its payloads are behind those of the inputs before. -/
structure InputGood (events : List HostEvent) (before : List ArchiveRecord)
    (metadata : PayloadRecord) : Prop where
  bound : SourceRangeBound events before metadata
  payloads_after : ∀ earlier ∈ before, earlier.metadata.role = .input →
    earlier.metadata.sourcePayloadOffset.toNat + earlier.metadata.sourcePayloadCount.toNat ≤
      metadata.sourcePayloadOffset.toNat

/-- The first records of an archive are as they must be: the host records are those of the first
events that need one, and every input is good. -/
structure Good (events : List HostEvent) (done : List ArchiveRecord) : Prop where
  hosts : (hostRecords done).map payloadBinding <+: (requiredEvents events).map eventBinding
  numbered : ∀ metadata ∈ hostRecords done, metadata.eventSequence ≠ 0
  inputs : ∀ before record after, done = before ++ record :: after →
    record.metadata.role = .input → InputGood events before record.metadata

theorem Good.left {events : List HostEvent} {done more : List ArchiveRecord}
    (h : Good events (done ++ more)) : Good events done where
  hosts := by
    have hprefix := h.hosts
    rw [hostRecords_append, List.map_append] at hprefix
    exact (List.prefix_append _ _).trans hprefix
  numbered := by
    intro metadata hmetadata
    apply h.numbered
    rw [hostRecords_append]
    exact List.mem_append_left _ hmetadata
  inputs := by
    intro before record after hsplit
    apply h.inputs before record (after ++ more)
    rw [hsplit, List.append_assoc, List.cons_append]

theorem Good.nil (events : List HostEvent) : Good events [] where
  hosts := List.nil_prefix
  numbered := fun metadata hmetadata => absurd hmetadata (by simp [hostRecords])
  inputs := by
    intro before record after hsplit
    cases before with
    | nil => cases hsplit
    | cons first before => cases hsplit

/-- The last one of some records, as one of them. -/
theorem eq_of_snoc_split {done before after : List ArchiveRecord} {record last : ArchiveRecord}
    (h : done ++ [last] = before ++ record :: after) :
    (before = done ∧ record = last ∧ after = []) ∨
      ∃ after', done = before ++ record :: after' := by
  cases List.eq_nil_or_concat after with
  | inl hnil =>
      subst hnil
      obtain ⟨hdone, hlast⟩ := List.append_inj' h rfl
      injection hlast with hlast
      exact Or.inl ⟨hdone.symm, hlast.symm, rfl⟩
  | inr hsome =>
      obtain ⟨after', final, rfl⟩ := hsome
      rw [List.concat_eq_append, ← List.cons_append, ← List.append_assoc] at h
      exact Or.inr ⟨after', (List.append_inj' h rfl).1⟩

theorem Good.snoc_host {events : List HostEvent} {done : List ArchiveRecord}
    {record : ArchiveRecord} (h : Good events done) (hrole : record.metadata.role = .host)
    (hhosts : (hostRecords done).map payloadBinding ++ [payloadBinding record.metadata] <+:
      (requiredEvents events).map eventBinding)
    (hnumbered : record.metadata.eventSequence ≠ 0) : Good events (done ++ [record]) where
  hosts := by
    rw [hostRecords_append, hostRecords_cons_host hrole, List.map_append]
    exact hhosts
  numbered := by
    intro metadata hmetadata
    rw [hostRecords_append, hostRecords_cons_host hrole] at hmetadata
    rcases List.mem_append.mp hmetadata with hbefore | hlast
    · exact h.numbered metadata hbefore
    · obtain rfl := List.mem_singleton.mp hlast
      exact hnumbered
  inputs := by
    intro before other after hsplit hinput
    rcases eq_of_snoc_split hsplit with ⟨-, rfl, -⟩ | ⟨after', hdone⟩
    · rw [hrole] at hinput
      cases hinput
    · exact h.inputs before other after' hdone hinput

theorem Good.snoc_input {events : List HostEvent} {done : List ArchiveRecord}
    {record : ArchiveRecord} (h : Good events done) (hrole : record.metadata.role = .input)
    (hgood : InputGood events done record.metadata) : Good events (done ++ [record]) where
  hosts := by
    rw [hostRecords_append, hostRecords_cons_input hrole]
    exact (List.append_nil (hostRecords done)).symm ▸ h.hosts
  numbered := by
    intro metadata hmetadata
    rw [hostRecords_append, hostRecords_cons_input hrole] at hmetadata
    rcases List.mem_append.mp hmetadata with hbefore | hlast
    · exact h.numbered metadata hbefore
    · exact absurd hlast (by simp [hostRecords])
  inputs := by
    intro before other after hsplit hinput
    rcases eq_of_snoc_split hsplit with ⟨rfl, rfl, -⟩ | ⟨after', hdone⟩
    · exact hgood
    · exact h.inputs before other after' hdone hinput

/-! ### The pass over the records -/

/-- Nothing among some numbers is above `bound`, and it is one of them or zero. -/
structure GreatestEnd (ends : List Nat) (bound : Nat) : Prop where
  le : ∀ reached ∈ ends, reached ≤ bound
  mem : bound = 0 ∨ bound ∈ ends

theorem GreatestEnd.le_iff {ends : List Nat} {bound : Nat} (h : GreatestEnd ends bound)
    (place : Nat) : bound ≤ place ↔ ∀ reached ∈ ends, reached ≤ place := by
  constructor
  · intro hle reached hreached
    exact Nat.le_trans (h.le reached hreached) hle
  · intro hall
    rcases h.mem with hzero | hmem
    · omega
    · exact hall bound hmem

theorem GreatestEnd.snoc {ends : List Nat} {bound next : Nat} (h : GreatestEnd ends bound)
    (hle : bound ≤ next) : GreatestEnd (ends ++ [next]) next where
  le := by
    intro reached hreached
    rcases List.mem_append.mp hreached with hbefore | hlast
    · exact Nat.le_trans (h.le reached hbefore) hle
    · exact Nat.le_of_eq (List.mem_singleton.mp hlast)
  mem := Or.inr (by simp)

/-- The inputs among the records of an archive. -/
def inputRecords (records : List ArchiveRecord) : List PayloadRecord :=
  (records.map ArchiveRecord.metadata).filter fun metadata => metadata.role = .input

/-- Where the event range of an input ends. -/
def sourceEventEnd (metadata : PayloadRecord) : Nat :=
  metadata.sourceEventOffset.toNat + metadata.sourceEventCount.toNat

/-- Where the payload range of an input ends. -/
def sourcePayloadEnd (metadata : PayloadRecord) : Nat :=
  metadata.sourcePayloadOffset.toNat + metadata.sourcePayloadCount.toNat

theorem mem_inputRecords {records : List ArchiveRecord} {metadata : PayloadRecord} :
    metadata ∈ inputRecords records ↔
      ∃ record ∈ records, record.metadata.role = .input ∧ record.metadata = metadata := by
  rw [inputRecords, List.mem_filter, List.mem_map, decide_eq_true_iff]
  constructor
  · rintro ⟨⟨record, hrecord, rfl⟩, hrole⟩
    exact ⟨record, hrecord, hrole, rfl⟩
  · rintro ⟨record, hrecord, hrole, rfl⟩
    exact ⟨⟨record, hrecord, rfl⟩, hrole⟩

theorem forall_inputEnds {records : List ArchiveRecord} {ending : PayloadRecord → Nat}
    {place : Nat} :
    (∀ reached ∈ (inputRecords records).map ending, reached ≤ place) ↔
      ∀ earlier ∈ records, earlier.metadata.role = .input → ending earlier.metadata ≤ place := by
  constructor
  · intro hall earlier hearlier hrole
    exact hall _ (List.mem_map.mpr ⟨_, mem_inputRecords.mpr ⟨earlier, hearlier, hrole, rfl⟩, rfl⟩)
  · intro hall reached hreached
    obtain ⟨metadata, hmetadata, rfl⟩ := List.mem_map.mp hreached
    obtain ⟨earlier, hearlier, hrole, rfl⟩ := mem_inputRecords.mp hmetadata
    exact hall earlier hearlier hrole

theorem inputRecords_snoc_input {done : List ArchiveRecord} {record : ArchiveRecord}
    (h : record.metadata.role = .input) :
    inputRecords (done ++ [record]) = inputRecords done ++ [record.metadata] := by
  rw [inputRecords, List.map_append, List.filter_append, List.map_singleton,
    List.filter_cons, if_pos (decide_eq_true h), List.filter_nil]
  rfl

theorem inputRecords_snoc_host {done : List ArchiveRecord} {record : ArchiveRecord}
    (h : record.metadata.role = .host) : inputRecords (done ++ [record]) = inputRecords done := by
  have hnot : ¬ decide (record.metadata.role = .input) = true := by
    rw [decide_eq_true_iff, h]
    exact Role.noConfusion
  rw [inputRecords, List.map_append, List.filter_append, List.map_singleton,
    List.filter_cons, if_neg hnot, List.filter_nil, List.append_nil]
  rfl

/-- The pass has gone over the records `done`. -/
structure Walked (events : List HostEvent) (records done : List ArchiveRecord) (now : BindState) :
    Prop where
  hosts : (requiredEvents events).map eventBinding =
    (hostRecords done).map payloadBinding ++ (requiredEvents now.hostEvents).map eventBinding
  suffix : now.hostEvents <:+ events
  behind : ∀ event ∈ now.hostEvents, now.lastHostPayloadSequence = 0 ∨
    now.lastHostPayloadSequence < event.sequence
  seen : now.sourcePayloads.Seen
  records_eq : now.sourcePayloads.records = records
  limit_le : now.sourcePayloads.physicalLimit ≤ done.length
  eventEnd : GreatestEnd ((inputRecords done).map sourceEventEnd) now.sourceEventEnd.toNat
  payloadEnd : GreatestEnd ((inputRecords done).map sourcePayloadEnd) now.sourcePayloads.logical

theorem walked_nil (events : List HostEvent) (records : List ArchiveRecord) :
    Walked events records []
      { sourcePayloads := { records := records }, hostEvents := events } where
  hosts := rfl
  suffix := List.suffix_refl _
  behind := fun event _ => Or.inl rfl
  seen := ⟨Nat.le_refl _, Nat.zero_le _, rfl⟩
  records_eq := rfl
  limit_le := Nat.le_refl _
  eventEnd := ⟨fun reached hreached => absurd hreached (by simp [inputRecords]), Or.inl rfl⟩
  payloadEnd := ⟨fun reached hreached => absurd hreached (by simp [inputRecords]), Or.inl rfl⟩

section Step

variable {events : List HostEvent} {done rest : List ArchiveRecord} {record : ArchiveRecord}
  {now : BindState}

/-- A host record with which the pass goes on is good. -/
theorem Walked.host {later : BindState} (h : Walked events (done ++ record :: rest) done now)
    (hordered : events.Pairwise fun a b => a.sequence < b.sequence) (hgood : Good events done)
    (hrole : record.metadata.role = .host) (hbind : bindHost record.metadata now = .ok later) :
    Walked events (done ++ record :: rest) (done ++ [record]) later ∧
      Good events (done ++ [record]) := by
  obtain ⟨skipped, event, more, hsplit, hnone, hrequired, hbinding, hlast, rfl⟩ :=
    bindHost_split hbind
  have hsequence := (payloadBinding_eq_iff.mp hbinding).1
  have hremaining : (requiredEvents now.hostEvents).map eventBinding =
      payloadBinding record.metadata :: (requiredEvents more).map eventBinding := by
    rw [hsplit, requiredEvents_append_of_none hnone, requiredEvents_cons hrequired, List.map_cons,
      hbinding]
  have hhosts := h.hosts
  rw [hremaining] at hhosts
  have hmore : more <:+ now.hostEvents := by
    rw [hsplit]
    exact (List.suffix_cons event more).trans (List.suffix_append _ _)
  constructor
  · refine ⟨?_, hmore.trans h.suffix, ?_, h.seen, h.records_eq, ?_, ?_, ?_⟩
    · rw [hhosts, hostRecords_append, hostRecords_cons_host hrole, List.map_append,
        List.append_assoc]
      rfl
    · -- the events behind a bound one have greater sequences
      intro other hother
      right
      show record.metadata.eventSequence < other.sequence
      rw [← hsequence]
      have hpair := hordered.sublist h.suffix.sublist
      rw [hsplit] at hpair
      have htail := (List.pairwise_append.mp hpair).2.1
      exact (List.pairwise_cons.mp htail).1 other hother
    · rw [List.length_append]
      exact Nat.le_trans h.limit_le (Nat.le_add_right _ _)
    · rw [inputRecords_snoc_host hrole]
      exact h.eventEnd
    · rw [inputRecords_snoc_host hrole]
      exact h.payloadEnd
  · apply hgood.snoc_host hrole
    · rw [hhosts]
      exact ⟨(requiredEvents more).map eventBinding, by rw [List.append_assoc]; rfl⟩
    · intro hzero
      rw [hzero] at hlast
      exact UInt64.not_lt_zero hlast

/-- The pass goes on with a host record that is good. -/
theorem Walked.host_of_good (h : Walked events (done ++ record :: rest) done now)
    (hordered : events.Pairwise fun a b => a.sequence < b.sequence)
    (hrole : record.metadata.role = .host) (hgood : Good events (done ++ [record])) :
    ∃ later, bindHost record.metadata now = .ok later := by
  have hhosts := hgood.hosts
  rw [h.hosts, hostRecords_append, hostRecords_cons_host hrole, List.map_append,
    List.prefix_append_right_inj] at hhosts
  obtain ⟨more, hmore⟩ := hhosts
  cases hrequired : requiredEvents now.hostEvents with
  | nil =>
      rw [hrequired] at hmore
      cases hmore
  | cons event others =>
      rw [hrequired] at hmore
      injection hmore with hbinding
      obtain ⟨skipped, tail, hsplit, hnone, hneeds⟩ := split_requiredEvents hrequired
      refine bindHost_of_split hsplit (hordered.sublist h.suffix.sublist) hnone hneeds hbinding ?_
      have hsequence := (payloadBinding_eq_iff.mp hbinding).1
      have hnumbered : record.metadata.eventSequence ≠ 0 := by
        apply hgood.numbered
        rw [hostRecords_append, hostRecords_cons_host hrole]
        exact List.mem_append_right _ (by simp)
      rcases h.behind event (by rw [hsplit]; simp) with hzero | hlt
      · rw [hzero]
        exact UInt64.pos_iff_ne_zero.mpr hnumbered
      · rw [← hsequence]
        exact hlt

theorem Walked.rangeFits_iff (h : Walked events (done ++ record :: rest) done now) :
    RangeFits events done record.metadata now.sourcePayloads.logical now.sourceEventEnd ∧
        recomputedSourceHash events done record.metadata = some record.metadata.sourceHash ↔
      InputGood events done record.metadata := by
  constructor
  · rintro ⟨hfits, hhash⟩
    exact ⟨⟨hfits.events_within,
      forall_inputEnds.mp ((h.eventEnd.le_iff _).mp hfits.eventEnd_le), hfits.payloads_within,
      hhash⟩, forall_inputEnds.mp ((h.payloadEnd.le_iff _).mp hfits.logical_le)⟩
  · rintro ⟨hbound, hafter⟩
    exact ⟨⟨hbound.events_within,
      (h.eventEnd.le_iff _).mpr (forall_inputEnds.mpr hbound.events_after),
      (h.payloadEnd.le_iff _).mpr (forall_inputEnds.mpr hafter), hbound.payloads_within⟩,
      hbound.hash_eq⟩

/-- An input with which the pass goes on is good. -/
theorem Walked.input {later : BindState} (h : Walked events (done ++ record :: rest) done now)
    (hgood : Good events done) (hrole : record.metadata.role = .input)
    (hbind : bindRecord events done.length record.metadata now = .ok later) :
    Walked events (done ++ record :: rest) (done ++ [record]) later ∧
      Good events (done ++ [record]) := by
  have hindex : done.length ≤ now.sourcePayloads.records.length := by
    rw [h.records_eq, List.length_append]
    exact Nat.le_add_right _ _
  have hbefore : now.sourcePayloads.records.take done.length = done := by
    rw [h.records_eq, List.take_left]
  rw [bindRecord, hrole] at hbind
  dsimp only at hbind
  cases hrange : sourceRangeHash events record.metadata done.length now.sourcePayloads
      now.sourceEventEnd with
  | none =>
      rw [hrange] at hbind
      cases hbind
  | some result =>
      obtain ⟨hash, payloads, eventEnd⟩ := result
      rw [hrange] at hbind
      dsimp only at hbind
      by_cases hother : hash ≠ record.metadata.sourceHash
      · rw [if_pos hother] at hbind
        cases hbind
      · rw [if_neg hother] at hbind
        rw [not_not] at hother
        subst hother
        injection hbind with hlater
        obtain ⟨hfind, hfits⟩ := sourceRangeHash_spec events record.metadata now.sourceEventEnd
          record.metadata.sourceHash h.seen h.limit_le hindex
        rw [hbefore] at hfind hfits
        obtain ⟨hfit, hhash⟩ := hfits payloads eventEnd hrange
        obtain ⟨later', eventEnd', hrange', hdone⟩ := hfind hfit hhash
        rw [hrange] at hrange'
        injection hrange' with hrange'
        injection hrange' with _ hpair
        injection hpair with hpayloads heventEnd
        subst hpayloads heventEnd hlater
        refine ⟨⟨?_, h.suffix, h.behind, hdone.seen, hdone.records_eq.trans h.records_eq, ?_, ?_,
          ?_⟩,
          hgood.snoc_input hrole (h.rangeFits_iff.mp ⟨hfit, hhash⟩)⟩
        · rw [hostRecords_append, hostRecords_cons_input hrole]
          exact (List.append_nil (hostRecords done)).symm ▸ h.hosts
        · show payloads.physicalLimit ≤ _
          rw [hdone.limit_eq, List.length_append]
          exact Nat.le_add_right _ _
        · rw [inputRecords_snoc_input hrole, List.map_append]
          show GreatestEnd _ eventEnd.toNat
          rw [hdone.eventEnd_eq]
          exact h.eventEnd.snoc (Nat.le_trans hfit.eventEnd_le (Nat.le_add_right _ _))
        · rw [inputRecords_snoc_input hrole, List.map_append]
          show GreatestEnd _ payloads.logical
          rw [hdone.logical_eq]
          exact h.payloadEnd.snoc (Nat.le_trans hfit.logical_le (Nat.le_add_right _ _))

/-- The pass goes on with an input that is good. -/
theorem Walked.input_of_good (h : Walked events (done ++ record :: rest) done now)
    (hrole : record.metadata.role = .input) (hgood : Good events (done ++ [record])) :
    ∃ later, bindRecord events done.length record.metadata now = .ok later := by
  have hindex : done.length ≤ now.sourcePayloads.records.length := by
    rw [h.records_eq, List.length_append]
    exact Nat.le_add_right _ _
  have hbefore : now.sourcePayloads.records.take done.length = done := by
    rw [h.records_eq, List.take_left]
  obtain ⟨hfit, hhash⟩ := h.rangeFits_iff.mpr (hgood.inputs done record [] rfl hrole)
  obtain ⟨hfind, -⟩ := sourceRangeHash_spec events record.metadata now.sourceEventEnd
    record.metadata.sourceHash h.seen h.limit_le hindex
  rw [hbefore] at hfind
  obtain ⟨later, eventEnd, hrange, -⟩ := hfind hfit hhash
  rw [bindRecord, hrole, hrange]
  dsimp only
  rw [if_neg (not_not_intro rfl)]
  exact ⟨_, rfl⟩

/-- The step of the pass. -/
theorem Walked.step {later : BindState} (h : Walked events (done ++ record :: rest) done now)
    (hordered : events.Pairwise fun a b => a.sequence < b.sequence) (hgood : Good events done)
    (hbind : bindRecord events done.length record.metadata now = .ok later) :
    Walked events (done ++ record :: rest) (done ++ [record]) later ∧
      Good events (done ++ [record]) := by
  cases hrole : record.metadata.role with
  | host =>
      rw [bindRecord, hrole] at hbind
      exact h.host hordered hgood hrole hbind
  | input => exact h.input hgood hrole hbind

theorem Walked.step_of_good (h : Walked events (done ++ record :: rest) done now)
    (hordered : events.Pairwise fun a b => a.sequence < b.sequence)
    (hgood : Good events (done ++ [record])) :
    ∃ later, bindRecord events done.length record.metadata now = .ok later := by
  cases hrole : record.metadata.role with
  | host =>
      rw [bindRecord, hrole]
      exact h.host_of_good hordered hrole hgood
  | input => exact h.input_of_good hrole hgood

end Step

/-- **The pass over the records ends if, and only if, they are good.** -/
theorem bindRecords_spec {events : List HostEvent} {done rest : List ArchiveRecord}
    {now : BindState} (h : Walked events (done ++ rest) done now)
    (hordered : events.Pairwise fun a b => a.sequence < b.sequence) (hgood : Good events done) :
    (∀ final, bindRecords events done.length rest now = .ok final →
      Walked events (done ++ rest) (done ++ rest) final ∧ Good events (done ++ rest)) ∧
    (Good events (done ++ rest) →
      ∃ final, bindRecords events done.length rest now = .ok final) := by
  induction rest generalizing done now with
  | nil =>
      rw [List.append_nil] at h ⊢
      refine ⟨fun final hfinal => ?_, fun _ => ⟨now, rfl⟩⟩
      cases hfinal
      exact ⟨h, hgood⟩
  | cons record rest ih =>
      have hlength : (done ++ [record]).length = done.length + 1 := by
        rw [List.length_append, List.length_singleton]
      have hsplit : done ++ record :: rest = (done ++ [record]) ++ rest := by
        rw [List.append_assoc]
        rfl
      rw [bindRecords]
      constructor
      · intro final hfinal
        cases hbind : bindRecord events done.length record.metadata now with
        | error code =>
            rw [hbind] at hfinal
            cases hfinal
        | ok later =>
            rw [hbind] at hfinal
            obtain ⟨hwalked, hgood'⟩ := h.step hordered hgood hbind
            rw [hsplit] at hwalked ⊢
            rw [← hlength] at hfinal
            exact (ih hwalked hgood').1 final hfinal
      · intro hall
        rw [hsplit] at hall
        obtain ⟨later, hbind⟩ := h.step_of_good hordered hall.left
        obtain ⟨hwalked, hgood'⟩ := h.step hordered hgood hbind
        rw [hsplit] at hwalked
        rw [hbind, ← hlength]
        exact (ih hwalked hgood').2 hall

/-! ### The host records of a bound archive -/

theorem requiredEvents_ordered {events : List HostEvent}
    (hordered : events.Pairwise fun a b => a.sequence < b.sequence) :
    ((requiredEvents events).map eventBinding).Pairwise
      fun a b => a.eventSequence < b.eventSequence := by
  apply List.pairwise_map.mpr
  exact hordered.sublist List.filter_sublist

theorem nodup_of_ordered {payloads : List SourcePayloadBinding}
    (h : payloads.Pairwise fun a b => a.eventSequence < b.eventSequence) : payloads.Nodup := by
  apply h.imp
  rintro a b hlt rfl
  exact UInt64.lt_irrefl _ hlt

/-- How often the host records name an event. -/
theorem countP_payloadBinding (hosts : List PayloadRecord) (payload : SourcePayloadBinding) :
    hosts.countP (fun metadata => payloadBinding metadata == payload) =
      (hosts.map payloadBinding).count payload := by
  rw [List.count, List.countP_map]
  rfl

/-- **Host records are bound if they are, one by one, those of the events that need one.** -/
theorem hostsBound_iff {events : List HostEvent}
    (hordered : events.Pairwise fun a b => a.sequence < b.sequence) (hosts : List PayloadRecord) :
    hosts.map payloadBinding = (requiredEvents events).map eventBinding ↔
      HostsBound events hosts := by
  have hsorted := requiredEvents_ordered hordered
  constructor
  · intro heq
    refine ⟨?_, ?_, ?_⟩
    · intro event hevent hrequired
      rw [countP_payloadBinding, heq]
      apply List.count_eq_one_of_mem (nodup_of_ordered hsorted)
      exact List.mem_map.mpr ⟨event, List.mem_filter.mpr ⟨hevent, hrequired⟩, rfl⟩
    · intro metadata hmetadata
      have hmem : payloadBinding metadata ∈ hosts.map payloadBinding :=
        List.mem_map.mpr ⟨metadata, hmetadata, rfl⟩
      rw [heq] at hmem
      obtain ⟨event, hevent, hbinding⟩ := List.mem_map.mp hmem
      obtain ⟨hin, hrequired⟩ := List.mem_filter.mp hevent
      exact ⟨event, hin, hrequired, hbinding.symm⟩
    · rw [← heq] at hsorted
      have hpair := List.pairwise_map.mp hsorted
      exact hpair
  · intro hbound
    have hhosts : (hosts.map payloadBinding).Pairwise
        fun a b => a.eventSequence < b.eventSequence := by
      apply List.pairwise_map.mpr
      exact hbound.ordered
    have hperm : (hosts.map payloadBinding).Perm ((requiredEvents events).map eventBinding) := by
      apply (List.perm_ext_iff_of_nodup (nodup_of_ordered hhosts)
        (nodup_of_ordered hsorted)).mpr
      intro payload
      constructor
      · intro hmem
        obtain ⟨metadata, hmetadata, rfl⟩ := List.mem_map.mp hmem
        obtain ⟨event, hevent, hrequired, hbinding⟩ := hbound.owned metadata hmetadata
        rw [hbinding]
        exact List.mem_map.mpr ⟨event, List.mem_filter.mpr ⟨hevent, hrequired⟩, rfl⟩
      · intro hmem
        obtain ⟨event, hevent, rfl⟩ := List.mem_map.mp hmem
        obtain ⟨hin, hrequired⟩ := List.mem_filter.mp hevent
        have hone := hbound.required event hin hrequired
        rw [countP_payloadBinding] at hone
        exact List.count_pos_iff.mp (by omega)
    apply hperm.eq_of_pairwise _ hhosts hsorted
    intro a b _ _ hlt hgt
    exact absurd (UInt64.lt_trans hlt hgt) (UInt64.lt_irrefl _)

/-! ### Diagnostic records -/

/-- The events from one with a sequence on. -/
theorem dropWhile_of_split {skipped rest : List HostEvent} {event : HostEvent}
    (hordered : (skipped ++ event :: rest).Pairwise fun a b => a.sequence < b.sequence) :
    (skipped ++ event :: rest).dropWhile (fun other => other.sequence < event.sequence) =
      event :: rest := by
  rw [List.dropWhile_append_of_pos, List.dropWhile_cons, if_neg]
  · rw [decide_eq_true_iff]
    exact UInt64.lt_irrefl _
  · intro other hother
    rw [decide_eq_true_iff]
    exact (List.pairwise_append.mp hordered).2.2 other hother event (by simp)

/-- The events behind one that was found are still ahead. -/
theorem ahead_of_split {events skipped more : List HostEvent} {event : HostEvent} {last : UInt64}
    (hordered : (skipped ++ event :: more).Pairwise fun a b => a.sequence < b.sequence)
    (hlt : last < event.sequence)
    (hahead : ∀ later ∈ events, last < later.sequence → later ∈ skipped ++ event :: more) :
    ∀ later ∈ events, event.sequence < later.sequence → later ∈ more := by
  intro later hlater hbehind
  rcases List.mem_append.mp (hahead later hlater (UInt64.lt_trans hlt hbehind)) with
    hbefore | hfrom
  · have hless := (List.pairwise_append.mp hordered).2.2 later hbefore event (by simp)
    exact absurd (UInt64.lt_trans hless hbehind) (UInt64.lt_irrefl _)
  · rcases List.mem_cons.mp hfrom with rfl | hmem
    · exact absurd hbehind (UInt64.lt_irrefl _)
    · exact hmem

/-- **The pass over the diagnostic records**, when the events behind the last one are still
ahead. -/
theorem bindDiagnostics_iff {events rest : List HostEvent} {diagnostics : List DiagnosticRecord}
    {last : UInt64} (hordered : events.Pairwise fun a b => a.sequence < b.sequence)
    (hsuffix : rest <:+ events)
    (hahead : ∀ event ∈ events, last < event.sequence → event ∈ rest) :
    bindDiagnostics diagnostics rest last = .ok () ↔
      (∀ diagnostic ∈ diagnostics, last < diagnostic.eventSequence) ∧
      diagnostics.Pairwise (fun a b => a.eventSequence < b.eventSequence) ∧
      ∀ diagnostic ∈ diagnostics, ∃ event ∈ events, DiagnosticOf event diagnostic := by
  induction diagnostics generalizing rest last with
  | nil =>
      exact ⟨fun _ => ⟨by simp, List.Pairwise.nil, by simp⟩, fun _ => rfl⟩
  | cons diagnostic diagnostics ih =>
      have hrest := hordered.sublist hsuffix.sublist
      rw [bindDiagnostics]
      by_cases hlast : diagnostic.eventSequence ≤ last
      · rw [if_pos hlast]
        constructor
        · intro hno
          cases hno
        · intro hall
          exact absurd (hall.1 diagnostic (by simp)) (UInt64.not_lt.mpr hlast)
      · rw [if_neg hlast]
        have hlt := UInt64.not_le.mp hlast
        constructor
        · intro hbind
          cases hfound : rest.dropWhile fun event => event.sequence < diagnostic.eventSequence with
          | nil =>
              rw [hfound] at hbind
              cases hbind
          | cons event more =>
              rw [hfound] at hbind
              dsimp only at hbind
              by_cases hother : event.sequence ≠ diagnostic.eventSequence ∨
                  event.kind ≠ diagnostic.kind ∨ event.status ≠ statusOk ∨
                  event.completedBytes ≠ diagnostic.byteCount ∨
                  event.payloadHash ≠ diagnostic.payloadHash
              · rw [if_pos hother] at hbind
                cases hbind
              · rw [if_neg hother] at hbind
                push Not at hother
                have hsplit := List.takeWhile_append_dropWhile
                  (p := fun event : HostEvent => event.sequence < diagnostic.eventSequence)
                  (l := rest)
                rw [hfound] at hsplit
                have hmore := ahead_of_split (hsplit ▸ hrest) (hother.1 ▸ hlt) (hsplit ▸ hahead)
                rw [hother.1] at hmore
                have hmoreSuffix : more <:+ events := by
                  have hdrop : event :: more <:+ rest := hfound ▸ List.dropWhile_suffix _
                  exact (List.suffix_cons event more).trans (hdrop.trans hsuffix)
                obtain ⟨hnext, hpair, hevents⟩ := (ih hmoreSuffix hmore).mp hbind
                refine ⟨?_, List.pairwise_cons.mpr ⟨hnext, hpair⟩, ?_⟩
                · intro other hmem
                  rcases List.mem_cons.mp hmem with rfl | hmem
                  · exact hlt
                  · exact UInt64.lt_trans hlt (hnext other hmem)
                · intro other hmem
                  rcases List.mem_cons.mp hmem with rfl | hmem
                  · refine ⟨event, ?_, hother⟩
                    apply hsuffix.subset
                    rw [← hsplit]
                    exact List.mem_append_right _ (by simp)
                  · exact hevents other hmem
        · rintro ⟨hnext, hpair, hevents⟩
          obtain ⟨event, hevent, hof⟩ := hevents diagnostic (by simp)
          have hin : event ∈ rest := hahead event hevent (hof.1 ▸ hlt)
          obtain ⟨skipped, more, rfl⟩ := List.append_of_mem hin
          have hfound := dropWhile_of_split hrest
          rw [hof.1] at hfound
          rw [hfound]
          dsimp only
          have hmatch : ¬ (event.sequence ≠ diagnostic.eventSequence ∨
              event.kind ≠ diagnostic.kind ∨ event.status ≠ statusOk ∨
              event.completedBytes ≠ diagnostic.byteCount ∨
              event.payloadHash ≠ diagnostic.payloadHash) := by
            obtain ⟨hsequence, hkind, hstatus, hbytes, hhash⟩ := hof
            rintro (h | h | h | h | h)
            exacts [h hsequence, h hkind, h hstatus, h hbytes, h hhash]
          rw [if_neg hmatch]
          have hmoreSuffix : more <:+ events :=
            ((List.suffix_cons event more).trans (List.suffix_append skipped _)).trans hsuffix
          have hmore := ahead_of_split hrest (hof.1 ▸ hlt) hahead
          rw [hof.1] at hmore
          obtain ⟨hfirst, hothers⟩ := List.pairwise_cons.mp hpair
          exact (ih hmoreSuffix hmore).mpr ⟨hfirst, hothers,
            fun other hmem => hevents other (List.mem_cons_of_mem _ hmem)⟩

/-! ### The whole pass -/

theorem skipEvents_error {sequence : UInt64} {events : List HostEvent} {code : ReplayCode}
    (h : skipEvents sequence events = .error code) : code ≠ .ok := by
  induction events with
  | nil => cases h
  | cons event events ih =>
      rw [skipEvents] at h
      split_ifs at h
      · cases h
        decide
      · exact ih h

theorem bindRecord_error {events : List HostEvent} {index : Nat} {metadata : PayloadRecord}
    {now : BindState} {code : ReplayCode} (h : bindRecord events index metadata now = .error code) :
    code ≠ .ok := by
  rw [bindRecord] at h
  cases hrole : metadata.role with
  | input =>
      rw [hrole] at h
      dsimp only at h
      cases hrange : sourceRangeHash events metadata index now.sourcePayloads
          now.sourceEventEnd with
      | none =>
          rw [hrange] at h
          cases h
          decide
      | some result =>
          rw [hrange] at h
          dsimp only at h
          split_ifs at h
          cases h
          decide
  | host =>
      rw [hrole] at h
      dsimp only at h
      rw [bindHost] at h
      split_ifs at h
      · cases h
        decide
      · cases hskip : skipEvents metadata.eventSequence now.hostEvents with
        | error skipped =>
            rw [hskip] at h
            cases h
            exact skipEvents_error hskip
        | ok found =>
            rw [hskip] at h
            cases found with
            | nil =>
                cases h
                decide
            | cons event rest =>
                dsimp only at h
                split_ifs at h
                · cases h
                  decide
                · cases h
                  decide

theorem bindRecords_error {events : List HostEvent} {index : Nat} {records : List ArchiveRecord}
    {now : BindState} {code : ReplayCode} (h : bindRecords events index records now = .error code) :
    code ≠ .ok := by
  induction records generalizing index now with
  | nil => cases h
  | cons record records ih =>
      rw [bindRecords] at h
      cases hbind : bindRecord events index record.metadata now with
      | error stopped =>
          rw [hbind] at h
          cases h
          exact bindRecord_error hbind
      | ok later =>
          rw [hbind] at h
          exact ih h

theorem bindDiagnostics_error {diagnostics : List DiagnosticRecord} {events : List HostEvent}
    {last : UInt64} {code : ReplayCode}
    (h : bindDiagnostics diagnostics events last = .error code) : code ≠ .ok := by
  induction diagnostics generalizing events last with
  | nil => cases h
  | cons diagnostic diagnostics ih =>
      rw [bindDiagnostics] at h
      split_ifs at h
      · cases h
        decide
      · cases hfound : events.dropWhile fun event => event.sequence < diagnostic.eventSequence with
        | nil =>
            rw [hfound] at h
            cases h
            decide
        | cons event more =>
            rw [hfound] at h
            dsimp only at h
            split_ifs at h
            · cases h
              decide
            · exact ih h

/-- **`BindPayloads` accepts exactly the archives that are bound and go forward.** -/
theorem bindPayloads_iff (events : List HostEvent) (archive : PayloadArchive)
    (hordered : events.Pairwise fun a b => a.sequence < b.sequence) :
    bindPayloads events archive = .ok ↔ Bound events archive ∧ Forward archive := by
  obtain ⟨hforth, hback⟩ := @bindRecords_spec events [] archive.records _
    (walked_nil events archive.records) hordered (Good.nil events)
  rw [List.nil_append, List.length_nil] at hforth hback
  have hdiagnostics := @bindDiagnostics_iff events events archive.diagnostic.records 0 hordered
    (List.suffix_refl events) (fun event hevent _ => hevent)
  constructor
  · intro hok
    rw [bindPayloads] at hok
    cases hrecords : bindRecords events 0 archive.records
        { sourcePayloads := { records := archive.records }, hostEvents := events } with
    | error code =>
        rw [hrecords] at hok
        exact absurd hok (bindRecords_error hrecords)
    | ok final =>
        obtain ⟨hwalked, hgood⟩ := hforth final hrecords
        rw [hrecords] at hok
        dsimp only at hok
        split_ifs at hok with hleft
        · exact absurd hok (by decide)
        · have hnone : requiredEvents final.hostEvents = [] := by
            apply List.filter_eq_nil_iff.mpr
            intro event hevent hrequired
            exact hleft (List.any_eq_true.mpr ⟨event, hevent, hrequired⟩)
          have hhosts := hwalked.hosts
          rw [hnone, List.map_nil, List.append_nil] at hhosts
          cases hdiagnostic : bindDiagnostics archive.diagnostic.records events 0 with
          | error code =>
              rw [hdiagnostic] at hok
              exact absurd hok (bindDiagnostics_error hdiagnostic)
          | ok result =>
              obtain ⟨hnumbered, hpair, hevents⟩ := hdiagnostics.mp hdiagnostic
              exact ⟨⟨(hostsBound_iff hordered _).mp hhosts.symm,
                fun before record after hsplit hrole =>
                  (hgood.inputs before record after hsplit hrole).bound, hevents⟩,
                ⟨hgood.numbered, fun before record after hsplit hrole =>
                  (hgood.inputs before record after hsplit hrole).payloads_after,
                fun diagnostic hmem => UInt64.pos_iff_ne_zero.mp (hnumbered diagnostic hmem),
                hpair⟩⟩
  · rintro ⟨hbound, hforward⟩
    have hhosts := (hostsBound_iff hordered _).mpr hbound.hosts
    have hgood : Good events archive.records :=
      ⟨hhosts ▸ List.prefix_refl _, hforward.hosts_numbered,
        fun before record after hsplit hrole => ⟨hbound.inputs before record after hsplit hrole,
          hforward.payloads_after before record after hsplit hrole⟩⟩
    obtain ⟨final, hfinal⟩ := hback hgood
    obtain ⟨hwalked, -⟩ := hforth final hfinal
    have hremaining := hwalked.hosts
    rw [hhosts] at hremaining
    have hnone : requiredEvents final.hostEvents = [] :=
      List.map_eq_nil_iff.mp (List.self_eq_append_right.mp hremaining)
    have hleft : ¬ final.hostEvents.any eventRequiresPayload = true := by
      intro hany
      obtain ⟨event, hevent, hrequired⟩ := List.any_eq_true.mp hany
      exact List.filter_eq_nil_iff.mp hnone event hevent hrequired
    rw [bindPayloads, hfinal]
    dsimp only
    rw [if_neg hleft, hdiagnostics.mpr ⟨fun diagnostic hmem =>
      UInt64.pos_iff_ne_zero.mpr (hforward.diagnostics_numbered diagnostic hmem),
      hforward.diagnostics_ordered, hbound.diagnostics⟩]

section Examples

/-- A read that succeeded. -/
def readEvent (sequence : UInt64) : HostEvent :=
  { sequence := sequence, kind := .ioRead, status := statusOk }

/-- The host record of a read. -/
def readRecord (sequence : UInt64) : ArchiveRecord :=
  { metadata := { eventSequence := sequence, kind := .ioRead } }

/-- An input that was produced from events and payloads from the first ones on. -/
def inputRecord (eventCount payloadOffset payloadCount sourceHash : UInt64) : ArchiveRecord :=
  { metadata :=
      { role := .input
        sourceEventCount := eventCount
        sourcePayloadOffset := payloadOffset
        sourcePayloadCount := payloadCount
        sourceHash := sourceHash } }

/-- A datagram that was received, and its diagnostic record. -/
def receiveEvent (sequence : UInt64) : HostEvent :=
  { sequence := sequence, kind := .netRecvDatagram, status := statusOk }

def receiveRecord (sequence : UInt64) : DiagnosticRecord :=
  { eventSequence := sequence, kind := .netRecvDatagram }

/-- A read, the input that was made of it and a datagram. -/
theorem bindPayloads_read :
    Bound [readEvent 1, receiveEvent 2]
        { records := [readRecord 1, inputRecord 1 0 1 15010074808327645503]
          diagnostic := { records := [receiveRecord 2] } } ∧
      Forward
        { records := [readRecord 1, inputRecord 1 0 1 15010074808327645503]
          diagnostic := { records := [receiveRecord 2] } } :=
  (bindPayloads_iff [readEvent 1, receiveEvent 2]
    { records := [readRecord 1, inputRecord 1 0 1 15010074808327645503]
      diagnostic := { records := [receiveRecord 2] } } (by decide)).mp (by decide)

/-- Archives that are bound and still refused: an event with the sequence zero, an input whose
payloads, none at all, begin before those of another one, and diagnostic records out of order. -/
theorem bindPayloads_forward_only :
    (Bound [readEvent 0] { records := [readRecord 0] } ∧
      bindPayloads [readEvent 0] { records := [readRecord 0] } = .hostDuplicateField) ∧
    (Bound [readEvent 1]
        { records := [readRecord 1, inputRecord 0 1 0 (beginSourceRange 0 0 1 0),
            inputRecord 0 0 0 (beginSourceRange 0 0 0 0)] } ∧
      bindPayloads [readEvent 1]
        { records := [readRecord 1, inputRecord 0 1 0 (beginSourceRange 0 0 1 0),
            inputRecord 0 0 0 (beginSourceRange 0 0 0 0)] } = .inputSourceHashMismatch) ∧
    Bound [receiveEvent 1, receiveEvent 2]
        { diagnostic := { records := [receiveRecord 2, receiveRecord 1] } } ∧
      bindPayloads [receiveEvent 1, receiveEvent 2]
        { diagnostic := { records := [receiveRecord 2, receiveRecord 1] } } =
          .hostDiagnosticEventMismatch := by
  refine ⟨⟨⟨?_, ?_, fun _ hmem => absurd hmem List.not_mem_nil⟩, by decide⟩,
    ⟨⟨?_, ?_, fun _ hmem => absurd hmem List.not_mem_nil⟩, by decide⟩, ⟨?_, ?_, ?_⟩, by decide⟩
  · exact (hostsBound_iff (by decide) _).mp (by decide)
  · intro before record after hsplit hrole
    have hmem : record ∈ [readRecord 0] := by
      rw [show [readRecord 0] = before ++ record :: after from hsplit]
      simp
    obtain rfl := List.mem_singleton.mp hmem
    cases hrole
  · exact (hostsBound_iff (by decide) _).mp (by decide)
  · intro before record after hsplit hrole
    rcases before with - | ⟨first, - | ⟨second, - | ⟨third, before⟩⟩⟩
    · injection hsplit with hrecord
      rw [← hrecord] at hrole
      cases hrole
    · injection hsplit with hfirst hsplit
      injection hsplit with hrecord
      rw [← hfirst, ← hrecord]
      exact ⟨by decide, by decide, by decide, by decide⟩
    · injection hsplit with hfirst hsplit
      injection hsplit with hsecond hsplit
      injection hsplit with hrecord
      rw [← hfirst, ← hsecond, ← hrecord]
      exact ⟨by decide, by decide, by decide, by decide⟩
    · injection hsplit with _ hsplit
      injection hsplit with _ hsplit
      injection hsplit with _ hsplit
      cases before with
      | nil => cases hsplit
      | cons other before => cases hsplit
  · exact (hostsBound_iff (by decide) _).mp (by decide)
  · intro before record after hsplit hrole
    cases before with
    | nil => cases hsplit
    | cons other before => cases hsplit
  · intro diagnostic hmem
    have hboth : diagnostic = receiveRecord 2 ∨ diagnostic = receiveRecord 1 := by
      simpa using hmem
    rcases hboth with rfl | rfl
    · exact ⟨receiveEvent 2, by decide, rfl, rfl, rfl, rfl, rfl⟩
    · exact ⟨receiveEvent 1, by decide, rfl, rfl, rfl, rfl, rfl⟩

end Examples

end RunD.PayloadBind
