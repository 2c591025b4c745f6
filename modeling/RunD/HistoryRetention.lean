/-
What a rolling history keeps, over every sequence of appends.

`Holds history items` is the invariant: the ring holds exactly `items`, the
counters are their sums, and the numbers of the items follow each other.  An
append that is accepted drops the fewest oldest items that make room
(`MakesRoom`) and adds one; one that is rejected counts itself and changes
nothing else.  The bytes of an anchor count as retained until the first
segment takes its place.
-/
import RunD.History
import Mathlib.Data.List.Chain

namespace RunD

/-! ### The next checkpoint -/

namespace Checkpoint

theorem segmentCount_of_valid {checkpoint : Checkpoint} {data : CheckpointData}
    (h : checkpoint.data = some data) (hvalid : data.valid = true) :
    checkpoint.segmentCount = data.segmentCount := by
  rw [segmentCount, fieldOf, h]
  simp [hvalid]

end Checkpoint

namespace CheckpointData

theorem segmentCount_ne_zero {data : CheckpointData} (h : data.valid = true) :
    data.segmentCount ≠ 0 := by
  simp only [valid, Bool.and_eq_true, bne_iff_ne] at h
  exact h.1.1.1.1.1.1.1.1.1.1.1

/-- A checkpoint continues the count of the one before. -/
theorem make_segmentCount {previous : CheckpointData} {record : RecordData} {schema : UInt64}
    {state : List UInt8} (h : (make previous record schema state).valid = true) :
    checkedAdd previous.segmentCount 1 = true ∧
      (make previous record schema state).segmentCount = previous.segmentCount + 1 := by
  by_cases hcount : checkedAdd previous.segmentCount 1 = false
  · have hzero : (make previous record schema state).segmentCount = 0 := by
      rw [make, if_pos hcount]
    exact absurd hzero (segmentCount_ne_zero h)
  · refine ⟨Bool.not_eq_false _ ▸ hcount, ?_⟩
    rw [make, if_neg hcount]
    dsimp only
    split_ifs
    · rfl
    · rfl

end CheckpointData

namespace Binding

variable {ε : Type} {binding : Binding} {record : Record} {state : List UInt8} {allocates : Bool}

/-- What `checkpoint` and `advance` leave early with is no checkpoint. -/
def Failed (checkpoint : Checkpoint) : Prop := checkpoint.data = none

theorem Failed.not_ok {checkpoint : Checkpoint} (h : Failed checkpoint) :
    checkpoint.ok ≠ true := by
  intro hok
  obtain ⟨data, hdata, -⟩ := Checkpoint.ok_iff.mp hok
  rw [h] at hdata
  exact absurd hdata (by simp)

/-- The data of a record that is ready is there. -/
theorem ends_segmentOf : Ends (segmentOf record) (fun _ => True) Failed := by
  refine Ends.require_bind (fun _ => rfl) fun hready => ?_
  rcases hdata : record.data with - | data
  · -- a record without data carries the code of a failure
    rw [Record.readyCode, hdata] at hready
    exact absurd hready (record.absent_code hdata)
  · exact Ends.require_bind (fun _ => rfl) fun _ => ends_pure trivial

theorem ends_admits : Ends binding.admits (fun _ => True) Failed := by
  rw [admits, ← bind_pure (require (binding.checkpointable = true) _)]
  refine Ends.require_bind (fun _ => rfl) fun _ => ?_
  exact Ends.require_bind (fun _ => rfl) fun _ => ends_pure trivial

/-- The number of a checkpoint that was just made. -/
theorem segmentCount_of_make {previous : CheckpointData} {data : RecordData} {schema : UInt64}
    (hok : ({ data := some (.make previous data schema state) } : Checkpoint).ok = true) :
    ({ data := some (.make previous data schema state) } : Checkpoint).segmentCount.toNat =
      previous.segmentCount.toNat + 1 := by
  obtain ⟨made, hmade, hvalid⟩ := Checkpoint.ok_iff.mp hok
  cases hmade
  obtain ⟨hfits, hcount⟩ := CheckpointData.make_segmentCount hvalid
  rw [Checkpoint.segmentCount_of_valid rfl hvalid, hcount,
    toNat_add_of_fits (checkedAdd_iff.mp hfits)]
  rfl

/-- The first checkpoint of a chain has the number one. -/
theorem ends_checkpoint {E : ε → Prop} :
    Ends (binding.checkpoint record state allocates : Checked ε Checkpoint)
      (fun next => next.ok = true → next.segmentCount.toNat = 1) E := by
  have hfailed : ∀ failed : Checkpoint, Failed failed →
      failed.ok = true → failed.segmentCount.toNat = 1 :=
    fun failed h hok => absurd hok h.not_ok
  refine Ends.call ?_
  refine Ends.bind (ends_admits.mono fun _ h => hfailed _ h) fun _ _ => ?_
  refine Ends.bind (ends_segmentOf.mono fun _ h => hfailed _ h) fun data _ => ?_
  refine Ends.require_bind (fun _ => hfailed _ rfl) fun _ => ?_
  refine Ends.require_bind (fun _ => hfailed _ rfl) fun _ => ?_
  exact ends_pure segmentCount_of_make

/-- Advancing a checkpoint adds one to its number. -/
theorem ends_advance {previous : Checkpoint} {E : ε → Prop} :
    Ends (binding.advance previous record state allocates : Checked ε Checkpoint)
      (fun next => next.ok = true →
        next.segmentCount.toNat = previous.segmentCount.toNat + 1) E := by
  have hfailed : ∀ failed : Checkpoint, Failed failed → failed.ok = true →
      failed.segmentCount.toNat = previous.segmentCount.toNat + 1 :=
    fun failed h hok => absurd hok h.not_ok
  refine Ends.call ?_
  refine Ends.bind (ends_admits.mono fun _ h => hfailed _ h) fun _ _ => ?_
  rcases hdata : previous.data with - | data
  · exact ends_leave (hfailed _ rfl)
  · refine Ends.require_bind (fun _ => hfailed _ rfl) fun hvalid => ?_
    refine Ends.bind (ends_segmentOf.mono fun _ h => hfailed _ h) fun completed _ => ?_
    refine Ends.require_bind (fun _ => hfailed _ rfl) fun _ => ?_
    refine Ends.require_bind (fun _ => hfailed _ rfl) fun _ => ?_
    refine Ends.require_bind (fun _ => hfailed _ rfl) fun _ => ?_
    refine Ends.require_bind (fun _ => hfailed _ rfl) fun _ => ?_
    refine ends_pure ?_
    rw [Checkpoint.segmentCount_of_valid hdata hvalid]
    exact segmentCount_of_make

end Binding

/-! ### What a history holds -/

/-- The bytes of the segments. -/
def segmentBytes (items : List Segment) : Nat := (items.map fun item => item.byteCount.toNat).sum

/-- The events of the segments. -/
def segmentEvents (items : List Segment) : Nat := (items.map fun item => item.eventCount.toNat).sum

/-- Each segment has the number after the one before it. -/
def Consecutive (items : List Segment) : Prop :=
  items.IsChain fun item next => next.sequence.toNat = item.sequence.toNat + 1

/-- Beside the segments `kept` there is room for one of the given weight. -/
def MakesRoom (retention : Retention) (kept : List Segment) (bytes events : Nat) : Prop :=
  kept.length < retention.maxSegments ∧ segmentBytes kept + bytes ≤ retention.maxBytes.toNat ∧
    segmentEvents kept + events ≤ retention.maxEvents.toNat

namespace History

/-- The bytes of the anchor, as long as the history has one. -/
def anchorBytes (history : History) : Nat :=
  match history.anchor with
  | some anchor => anchor.stateSize
  | none => 0

/-- The history holds exactly `items`, with the counters that belong to them. -/
structure Holds (history : History) (items : List Segment) : Prop where
  ring : Ring history.slots history.head items
  capacity : history.slots.length = history.retention.maxSegments
  size_eq : history.size = items.length
  anchor_none : items ≠ [] → history.anchor = none
  bytes_eq : history.retainedBytes.toNat = segmentBytes items + history.anchorBytes
  events_eq : history.retainedEvents.toNat = segmentEvents items
  bytes_le : history.retainedBytes.toNat ≤ history.retention.maxBytes.toNat
  events_le : history.retainedEvents.toNat ≤ history.retention.maxEvents.toNat
  numbered : ∀ item ∈ items, item.checkpoint.segmentCount = item.sequence ∧ item.sequence ≠ 0
  consecutive : Consecutive items

variable {ε : Type} {history : History} {items : List Segment}

/-- The bytes of the segments are what the eviction starts from. -/
theorem Holds.retained_eq (h : history.Holds items) :
    (if history.size = 0 ∧ history.anchor.isSome then 0 else history.retainedBytes).toNat =
      segmentBytes items := by
  by_cases hanchor : history.size = 0 ∧ history.anchor.isSome
  · have hnil : items = [] := List.length_eq_zero_iff.mp (h.size_eq ▸ hanchor.1)
    rw [if_pos hanchor, hnil]
    rfl
  · have hzero : history.anchorBytes = 0 := by
      rw [anchorBytes]
      rcases ha : history.anchor with - | anchor
      · rfl
      · have hne : items = [] := by
          by_contra hne
          rw [h.anchor_none hne] at ha
          exact absurd ha (by simp)
        exact absurd ⟨by rw [h.size_eq, hne]; rfl, by rw [ha]; rfl⟩ hanchor
    rw [if_neg hanchor, h.bytes_eq, hzero, Nat.add_zero]

theorem Holds.slot_at (h : history.Holds items) {i : Nat} {item : Segment}
    (hi : items[i]? = some item) :
    (fetch history.slots ((history.head + i) % history.slots.length) :
      Checked ε (Option Segment)) = Except.ok (some item) :=
  fetch_of_lt (h.ring.slot i item hi)

/-! ### The eviction loop -/

theorem segmentBytes_drop {i : Nat} {item : Segment} (hi : items[i]? = some item) :
    segmentBytes (items.drop i) = item.byteCount.toNat + segmentBytes (items.drop (i + 1)) := by
  obtain ⟨hlt, rfl⟩ := List.getElem?_eq_some_iff.mp hi
  rw [List.drop_eq_getElem_cons hlt]
  rfl

theorem segmentEvents_drop {i : Nat} {item : Segment} (hi : items[i]? = some item) :
    segmentEvents (items.drop i) = item.eventCount.toNat + segmentEvents (items.drop (i + 1)) := by
  obtain ⟨hlt, rfl⟩ := List.getElem?_eq_some_iff.mp hi
  rw [List.drop_eq_getElem_cons hlt]
  rfl

/-- The loop goes on exactly while what is left makes no room. -/
theorem Holds.overflows_iff (h : history.Holds items) {bytes events : UInt64} {remove : Nat}
    {remainingBytes remainingEvents : UInt64}
    (hbytes : remainingBytes.toNat = segmentBytes (items.drop remove))
    (hevents : remainingEvents.toNat = segmentEvents (items.drop remove))
    (hbytesLe : remainingBytes.toNat ≤ history.retention.maxBytes.toNat)
    (heventsLe : remainingEvents.toNat ≤ history.retention.maxEvents.toNat) :
    history.overflows bytes events remove remainingBytes remainingEvents = false ↔
      MakesRoom history.retention (items.drop remove) bytes.toNat events.toNat := by
  have hb : (history.retention.maxBytes - remainingBytes).toNat =
      history.retention.maxBytes.toNat - remainingBytes.toNat :=
    UInt64.toNat_sub_of_le _ _ (UInt64.le_iff_toNat_le.mpr hbytesLe)
  have he : (history.retention.maxEvents - remainingEvents).toNat =
      history.retention.maxEvents.toNat - remainingEvents.toNat :=
    UInt64.toNat_sub_of_le _ _ (UInt64.le_iff_toNat_le.mpr heventsLe)
  rw [overflows, Bool.or_eq_false_iff, Bool.or_eq_false_iff, decide_eq_false_iff_not,
    decide_eq_false_iff_not, decide_eq_false_iff_not, gt_iff_lt, gt_iff_lt,
    UInt64.lt_iff_toNat_lt, UInt64.lt_iff_toNat_lt, hb, he, h.size_eq, MakesRoom,
    List.length_drop, ← hbytes, ← hevents]
  constructor
  · rintro ⟨⟨hsize, hbytes⟩, hevents⟩
    exact ⟨by omega, by omega, by omega⟩
  · rintro ⟨hsize, hbytes, hevents⟩
    exact ⟨⟨by omega, by omega⟩, by omega⟩

/-- The loop ends, drops as few of the oldest segments as it can, and knows what is left. -/
theorem Holds.evictionLoop_spec (h : history.Holds items) {bytes events : UInt64}
    (hfirst : MakesRoom history.retention [] bytes.toNat events.toNat) {turns remove : Nat}
    {remainingBytes remainingEvents : UInt64} (hturns : turns + remove = items.length)
    (hbytes : remainingBytes.toNat = segmentBytes (items.drop remove))
    (hevents : remainingEvents.toNat = segmentEvents (items.drop remove))
    (hbytesLe : remainingBytes.toNat ≤ history.retention.maxBytes.toNat)
    (heventsLe : remainingEvents.toNat ≤ history.retention.maxEvents.toNat) :
    ∃ (last : Nat) (lastBytes lastEvents : UInt64),
      history.evictionLoop bytes events turns remove remainingBytes remainingEvents =
        Except.ok (last, lastBytes, lastEvents) ∧
      remove ≤ last ∧ last ≤ items.length ∧
      lastBytes.toNat = segmentBytes (items.drop last) ∧
      lastEvents.toNat = segmentEvents (items.drop last) ∧
      MakesRoom history.retention (items.drop last) bytes.toNat events.toNat ∧
      ∀ k, remove ≤ k → k < last →
        ¬ MakesRoom history.retention (items.drop k) bytes.toNat events.toNat := by
  induction turns generalizing remove remainingBytes remainingEvents with
  | zero =>
      have hroom : MakesRoom history.retention (items.drop remove) bytes.toNat events.toNat := by
        rw [List.drop_of_length_le (by omega)]
        exact hfirst
      have hdone := (h.overflows_iff hbytes hevents hbytesLe heventsLe).mpr hroom
      refine ⟨remove, remainingBytes, remainingEvents, ?_, le_rfl, by omega, hbytes, hevents,
        hroom, fun k hk hlt => by omega⟩
      rw [evictionLoop, hdone]
      rfl
  | succ turns ih =>
      by_cases hroom : MakesRoom history.retention (items.drop remove) bytes.toNat events.toNat
      · have hdone := (h.overflows_iff hbytes hevents hbytesLe heventsLe).mpr hroom
        refine ⟨remove, remainingBytes, remainingEvents, ?_, le_rfl, by omega, hbytes, hevents,
          hroom, fun k hk hlt => by omega⟩
        rw [evictionLoop, hdone]
        rfl
      · -- one more segment goes: its weight is part of what is left
        have hmore : history.overflows bytes events remove remainingBytes remainingEvents = true :=
          Bool.not_eq_false _ ▸
            fun hdone => hroom ((h.overflows_iff hbytes hevents hbytesLe heventsLe).mp hdone)
        obtain ⟨item, hitem⟩ : ∃ item, items[remove]? = some item :=
          ⟨items[remove], List.getElem?_eq_getElem (by omega)⟩
        rw [segmentBytes_drop hitem] at hbytes
        rw [segmentEvents_drop hitem] at hevents
        have hbyteLe : item.byteCount ≤ remainingBytes := by
          rw [UInt64.le_iff_toNat_le]
          omega
        have heventLe : item.eventCount ≤ remainingEvents := by
          rw [UInt64.le_iff_toNat_le]
          omega
        have hbytes' := UInt64.toNat_sub_of_le _ _ hbyteLe
        have hevents' := UInt64.toNat_sub_of_le _ _ heventLe
        obtain ⟨last, lastBytes, lastEvents, hrun, hle, hlast, hb, he, hfits, hmin⟩ :=
          @ih (remove + 1) (remainingBytes - item.byteCount) (remainingEvents - item.eventCount)
            (by omega) (by omega) (by omega) (by omega) (by omega)
        refine ⟨last, lastBytes, lastEvents, ?_, by omega, hlast, hb, he, hfits, ?_⟩
        · rw [evictionLoop, hmore, if_pos rfl]
          rw [h.slot_at hitem, ok_bind]
          have hcheck : ¬ (item.byteCount > remainingBytes ∨ item.eventCount > remainingEvents) := by
            rw [gt_iff_lt, gt_iff_lt, UInt64.lt_iff_toNat_lt, UInt64.lt_iff_toNat_lt]
            omega
          show (require (¬ (item.byteCount > remainingBytes ∨
              item.eventCount > remainingEvents)) _ >>= fun _ =>
            history.evictionLoop bytes events turns (remove + 1)
              (remainingBytes - item.byteCount) (remainingEvents - item.eventCount)) = _
          rw [(require_eq_ok (u := ())).mpr hcheck, ok_bind]
          exact hrun
        · intro k hk hlt
          rcases Nat.eq_or_lt_of_le hk with rfl | hk'
          · exact hroom
          · exact hmin k hk' hlt

/-! ### The plan of an append -/

/-- The checkpoint of a new segment has the number after the last one. -/
theorem Holds.ends_nextCheckpoint (h : history.Holds items) (binding : Binding)
    (record : Record) (state : List UInt8) (allocates : Bool) {E : ε → Prop} :
    Ends (history.nextCheckpoint binding record state allocates : Checked ε Checkpoint)
      (fun next => next.ok = true → next.segmentCount ≠ 0 ∧
        ∀ item, items.getLast? = some item →
          next.segmentCount.toNat = item.sequence.toNat + 1) E := by
  have hpositive : ∀ {x : UInt64} {n : Nat}, x.toNat = n + 1 → x ≠ 0 := by
    intro x n hx hzero
    rw [hzero] at hx
    exact absurd hx (by simp)
  rw [nextCheckpoint]
  by_cases hsize : history.size = 0
  · have hnil : items = [] := List.length_eq_zero_iff.mp (h.size_eq ▸ hsize)
    rw [if_neg (not_not_intro hsize), hnil]
    rcases history.anchor with - | anchor
    · refine Binding.ends_checkpoint.mono_post fun next hnext hok => ?_
      exact ⟨hpositive (hnext hok), fun item hitem => absurd hitem (by simp)⟩
    · refine Binding.ends_advance.mono_post fun next hnext hok => ?_
      exact ⟨hpositive (hnext hok), fun item hitem => absurd hitem (by simp)⟩
  · rw [if_pos hsize]
    -- the newest segment stands `size - 1` slots behind the head
    have hlen : items.length ≠ 0 := h.size_eq ▸ hsize
    obtain ⟨last, hlast⟩ : ∃ last, items[items.length - 1]? = some last :=
      ⟨items[items.length - 1], List.getElem?_eq_getElem (by omega)⟩
    have hslot : (history.latestSegment : Checked ε Segment) = Except.ok last := by
      rw [latestSegment, show history.head + history.size - 1 =
        history.head + (items.length - 1) by rw [h.size_eq]; omega, h.slot_at hlast]
      rfl
    rw [hslot, ok_bind]
    refine Binding.ends_advance.mono_post fun next hnext hok => ?_
    have hnumber := (h.numbered last (List.mem_of_getElem? hlast)).1
    rw [hnumber] at hnext
    refine ⟨hpositive (hnext hok), fun item hitem => ?_⟩
    rw [List.getLast?_eq_getElem?, hlast] at hitem
    cases hitem
    exact hnext hok

/-- What a plan promises. -/
structure PlanFor (history : History) (items : List Segment) (plan : AppendPlan) : Prop where
  remove_le : plan.remove ≤ items.length
  bytes_eq : plan.remainingBytes.toNat = segmentBytes (items.drop plan.remove)
  events_eq : plan.remainingEvents.toNat = segmentEvents (items.drop plan.remove)
  room : MakesRoom history.retention (items.drop plan.remove) plan.segmentBytes.toNat
    plan.segmentEvents.toNat
  fewest : ∀ k < plan.remove, ¬ MakesRoom history.retention (items.drop k)
    plan.segmentBytes.toNat plan.segmentEvents.toNat
  number_ne_zero : plan.next.segmentCount ≠ 0
  number : ∀ item, items.getLast? = some item →
    plan.next.segmentCount.toNat = item.sequence.toNat + 1

/-- The first part of an append stays inside the slots, what it plans can be done, and what it
leaves early with is a failure. -/
theorem Holds.ends_planAppend (h : history.Holds items) (binding : Binding) (record : Record)
    (state : List UInt8) (allocates : Bool) :
    Ends (history.planAppend binding record state allocates) (PlanFor history items)
      (· ≠ ReplayCode.ok) := by
  refine Ends.require_bind (fun hcode => hcode) fun _ => ?_
  refine Ends.require_bind (fun _ => by decide) fun _ => ?_
  refine Ends.require_bind (fun hcode => hcode) fun _ => ?_
  refine Ends.require_bind (fun _ => by decide) fun _ => ?_
  rcases segmentWeight record state with - | ⟨bytes, events⟩
  · exact ends_leave (by decide)
  refine Ends.require_bind (fun _ => by decide) fun hweight => ?_
  refine Ends.require_bind (fun _ => by decide) fun hstate => ?_
  simp only [gt_iff_lt, UInt64.lt_iff_toNat_lt, not_or, not_lt] at hweight hstate
  have hmax : 0 < history.retention.maxSegments := by
    rw [← h.capacity]
    exact Nat.zero_lt_of_lt h.ring.head_lt
  have hfirst : MakesRoom history.retention [] bytes.toNat events.toNat :=
    ⟨hmax, by simpa [segmentBytes] using hweight.1, by simpa [segmentEvents] using hweight.2⟩
  obtain ⟨remove, remainingBytes, remainingEvents, hloop, -, hremove, hb, he, hroom, hmin⟩ :=
    @Holds.evictionLoop_spec history items h bytes events hfirst history.size 0 _ _
      (by rw [Nat.add_zero, h.size_eq]) h.retained_eq h.events_eq hstate.1 hstate.2
  rw [hloop, ok_bind]
  refine Ends.bind (h.ends_nextCheckpoint binding record state allocates) fun next hnext => ?_
  refine Ends.require_bind (fun hcode hok => hcode ?_) fun hok => ends_pure ?_
  · rw [Checkpoint.ok, hok]
    rfl
  · obtain ⟨hzero, hnumber⟩ := hnext hok
    exact ⟨hremove, hb, he, hroom, fun k hk => hmin k (Nat.zero_le k) hk, hzero, hnumber⟩

/-! ### Committing a plan -/

/-- The slots after resetting the oldest ones hold what is left. -/
theorem evict_spec {remove : Nat} (hring : Ring history.slots history.head items)
    (hsize : history.size = items.length) (hremove : remove ≤ items.length) :
    ∃ slots head, (evict remove history : Checked ε History) =
        Except.ok { history with slots := slots, head := head, size := items.length - remove } ∧
      slots.length = history.slots.length ∧ Ring slots head (items.drop remove) := by
  induction remove generalizing history items with
  | zero =>
      refine ⟨history.slots, history.head, ?_, rfl, hring⟩
      rw [evict, Nat.sub_zero, ← hsize]
      rfl
  | succ remove ih =>
      rcases items with - | ⟨oldest, items⟩
      · exact absurd hremove (by simp)
      · rw [List.length_cons] at hremove hsize
        have hpop := hring.pop
        obtain ⟨slots, head, hrun, hlen, hleft⟩ :=
          @ih { history with
            slots := history.slots.set history.head none
            head := (history.head + 1) % history.slots.length
            size := history.size - 1 } items hpop (by dsimp only; omega) (by omega)
        refine ⟨slots, head, ?_, ?_, hleft⟩
        · rw [evict, assign_of_lt hring.head_lt, ok_bind, hrun, List.length_cons]
          congr 2
          omega
        · rw [hlen, List.length_set]

theorem segmentBytes_append (kept : List Segment) (item : Segment) :
    segmentBytes (kept ++ [item]) = segmentBytes kept + item.byteCount.toNat := by
  simp [segmentBytes]

theorem segmentEvents_append (kept : List Segment) (item : Segment) :
    segmentEvents (kept ++ [item]) = segmentEvents kept + item.eventCount.toNat := by
  simp [segmentEvents]

/-- The segment a plan adds. -/
def AppendPlan.segment (plan : AppendPlan) (record : Record) : Segment :=
  { sequence := plan.next.segmentCount, byteCount := plan.segmentBytes,
    eventCount := plan.segmentEvents, record := record, checkpoint := plan.next }

/-- Numbers go on from the last one, whether or not it is dropped. -/
theorem PlanFor.consecutive {plan : AppendPlan} (hplan : PlanFor history items plan)
    (h : Consecutive items) (record : Record) :
    Consecutive (items.drop plan.remove ++ [plan.segment record]) := by
  refine List.isChain_append.mpr ⟨List.IsChain.drop h _, List.isChain_singleton _, ?_⟩
  intro item hitem next hnext
  cases hnext
  refine hplan.number item ?_
  rw [List.getLast?_drop] at hitem
  split_ifs at hitem with hshort
  · exact absurd hitem (by simp)
  · exact hitem

/-- A plan is carried out: the oldest segments go, the new one comes. -/
theorem Holds.commit_spec (h : history.Holds items) {plan : AppendPlan}
    (hplan : PlanFor history items plan) (record : Record) :
    ∃ next, (history.commit record plan : Checked ε (Append × History)) =
        Except.ok ({ code := .ok, sequence := plan.next.segmentCount,
                     evictedSegments := plan.remove }, next) ∧
      next.Holds (items.drop plan.remove ++ [plan.segment record]) ∧
      next.retention = history.retention := by
  obtain ⟨slots, head, hevict, hlen, hring⟩ :=
    @evict_spec ε history items plan.remove h.ring h.size_eq hplan.remove_le
  obtain ⟨hroom, hbytes, hevents⟩ := hplan.room
  have hleft : (items.drop plan.remove).length = items.length - plan.remove := List.length_drop
  have hcapacity : slots.length = history.retention.maxSegments := hlen.trans h.capacity
  have hpush := hring.push (by rw [hcapacity]; exact hroom) (plan.segment record)
  have hassign : (assign slots ((head + (items.length - plan.remove)) % slots.length)
      (some (plan.segment record)) : Checked ε (List (Option Segment))) =
      Except.ok (slots.set ((head + (items.drop plan.remove).length) % slots.length)
        (some (plan.segment record))) := by
    rw [hleft]
    exact assign_of_lt (Nat.mod_lt _ (Nat.zero_lt_of_lt hring.head_lt))
  have hbytesLt := history.retention.maxBytes.toNat_lt
  have heventsLt := history.retention.maxEvents.toNat_lt
  have hbytesSum : (plan.remainingBytes + plan.segmentBytes).toNat =
      segmentBytes (items.drop plan.remove ++ [plan.segment record]) := by
    rw [segmentBytes_append, ← hplan.bytes_eq, toNat_add_of_fits]
    · rfl
    · rw [hplan.bytes_eq]
      omega
  have heventsSum : (plan.remainingEvents + plan.segmentEvents).toNat =
      segmentEvents (items.drop plan.remove ++ [plan.segment record]) := by
    rw [segmentEvents_append, ← hplan.events_eq, toNat_add_of_fits]
    · rfl
    · rw [hplan.events_eq]
      omega
  let next : History :=
    { history with
      slots := slots.set ((head + (items.drop plan.remove).length) % slots.length)
        (some (plan.segment record))
      head := head
      size := items.length - plan.remove + 1
      retainedBytes := plan.remainingBytes + plan.segmentBytes
      retainedEvents := plan.remainingEvents + plan.segmentEvents
      evictedSegments := counterSaturatingAdd history.evictedSegments (UInt64.ofNat plan.remove)
      appendedSegments := counterSaturatingAdd history.appendedSegments 1
      anchor := none }
  refine ⟨next, ?_, ?_, rfl⟩
  · rw [commit, hevict, ok_bind]
    show (assign slots ((head + (items.length - plan.remove)) % slots.length)
      (some (plan.segment record)) >>= _) = _
    rw [hassign, ok_bind]
    rfl
  · refine ⟨hpush, ?_, ?_, fun _ => rfl, ?_, heventsSum, ?_, ?_, ?_,
      hplan.consecutive h.consecutive record⟩
    · show (slots.set _ _).length = _
      rw [List.length_set, hcapacity]
    · show items.length - plan.remove + 1 = _
      rw [List.length_append, hleft, List.length_singleton]
    · exact hbytesSum
    · show (plan.remainingBytes + plan.segmentBytes).toNat ≤ _
      rw [hbytesSum, segmentBytes_append]
      exact hbytes
    · show (plan.remainingEvents + plan.segmentEvents).toNat ≤ _
      rw [heventsSum, segmentEvents_append]
      exact hevents
    · intro item hitem
      rcases List.mem_append.mp hitem with hold | hnew
      · exact h.numbered item (List.mem_of_mem_drop hold)
      · rw [List.mem_singleton.mp hnew]
        exact ⟨rfl, hplan.number_ne_zero⟩

/-! ### One append -/

/-- **What one append does**: it is rejected and counts that, or it drops the fewest oldest
segments that make room and adds a new one. -/
theorem Holds.append_spec (h : history.Holds items) (binding : Binding) (record : Record)
    (state : List UInt8) (allocates : Bool) :
    (∃ code, code ≠ ReplayCode.ok ∧
      (history.append binding record state allocates : Checked ε (Append × History)) =
        Except.ok (history.reject code)) ∨
    ∃ (answer : Append) (next : History) (new : Segment),
      (history.append binding record state allocates : Checked ε (Append × History)) =
        Except.ok (answer, next) ∧
      answer.code = .ok ∧ answer.sequence = new.sequence ∧ answer.evictedSegments ≤ items.length ∧
      next.Holds (items.drop answer.evictedSegments ++ [new]) ∧
      next.retention = history.retention ∧
      (∀ item, items.getLast? = some item →
        new.sequence.toNat = item.sequence.toNat + 1) ∧
      ∀ k < answer.evictedSegments, ¬ MakesRoom history.retention (items.drop k)
        new.byteCount.toNat new.eventCount.toNat := by
  have hends := h.ends_planAppend binding record state allocates
  rw [append]
  rcases hplan : history.planAppend binding record state allocates with (code | -) | plan
  · rw [hplan] at hends
    exact Or.inl ⟨code, hends, rfl⟩
  · rw [hplan] at hends
    exact hends.elim
  · rw [hplan] at hends
    obtain ⟨next, hcommit, hholds, hretention⟩ := h.commit_spec hends record
    exact Or.inr ⟨_, next, plan.segment record, hcommit, rfl, rfl, hends.remove_le, hholds,
      hretention, hends.number, hends.fewest⟩

/-! ### Finding a segment -/

theorem Holds.segment_eq (h : history.Holds items) (index : Nat) :
    history.segment index = items[index]? := by
  have hslots : history.slots ≠ [] := List.ne_nil_of_length_pos (Nat.zero_lt_of_lt h.ring.head_lt)
  rw [segment, h.size_eq]
  by_cases hindex : index < items.length
  · rw [if_neg (by simp [hslots, hindex]), List.getElem?_eq_getElem hindex,
      h.ring.slot index _ (List.getElem?_eq_getElem hindex)]
    rfl
  · rw [if_pos (Or.inl (by omega)), List.getElem?_eq_none (by omega)]

/-- The number of an item, counted from the oldest. -/
theorem sequence_of_consecutive {oldest : Segment} (h : Consecutive (oldest :: items)) {i : Nat}
    {item : Segment} (hi : (oldest :: items)[i]? = some item) :
    item.sequence.toNat = oldest.sequence.toNat + i := by
  induction i generalizing oldest items with
  | zero =>
      cases hi
      rfl
  | succ i ih =>
      rcases items with - | ⟨second, items⟩
      · exact absurd hi (by simp)
      · rw [List.getElem?_cons_succ] at hi
        obtain ⟨hnext, hrest⟩ := List.isChain_cons_cons.mp h
        rw [ih hrest hi, hnext]
        omega

/-- `find` reads the item that stands as far behind the oldest as the number says. -/
theorem Holds.find_eq (h : history.Holds items) {oldest : Segment}
    (holdest : items[0]? = some oldest) {sequence : UInt64} :
    history.find sequence =
      if oldest.sequence ≤ sequence then items[sequence.toNat - oldest.sequence.toNat]? else none := by
  obtain ⟨rest, rfl⟩ : ∃ rest, items = oldest :: rest := by
    rcases items with - | ⟨first, rest⟩
    · exact absurd holdest (by simp)
    · cases holdest
      exact ⟨rest, rfl⟩
  have hslots : history.slots ≠ [] := List.ne_nil_of_length_pos (Nat.zero_lt_of_lt h.ring.head_lt)
  have hsize : history.size ≠ 0 := by
    rw [h.size_eq]
    exact Nat.succ_ne_zero _
  have hhead : history.slots[history.head]? = some (some oldest) := by
    have hslot := h.ring.slot 0 oldest rfl
    rwa [Nat.add_zero, Nat.mod_eq_of_lt h.ring.head_lt] at hslot
  have hpositive : oldest.sequence ≠ 0 := (h.numbered oldest (by simp)).2
  rw [find]
  by_cases hle : oldest.sequence ≤ sequence
  · have hnat := UInt64.le_iff_toNat_le.mp hle
    have hzero : sequence ≠ 0 := by
      rintro rfl
      exact hpositive (UInt64.toNat_inj.mp (Nat.le_zero.mp hnat))
    have hoffset : (sequence - oldest.sequence).toNat = sequence.toNat - oldest.sequence.toNat :=
      UInt64.toNat_sub_of_le _ _ hle
    have hnot : ¬ sequence < oldest.sequence := by
      rw [UInt64.lt_iff_toNat_lt]
      omega
    rw [if_neg (by simp [hsize, hslots, hzero]), hhead, if_pos hle]
    simp only [Option.join_some, if_neg hnot, hoffset, h.size_eq]
    by_cases hin : sequence.toNat - oldest.sequence.toNat < (oldest :: rest).length
    · obtain ⟨item, hitem⟩ : ∃ item,
          (oldest :: rest)[sequence.toNat - oldest.sequence.toNat]? = some item :=
        ⟨_, List.getElem?_eq_getElem hin⟩
      have hsame : item.sequence = sequence := by
        rw [← UInt64.toNat_inj, sequence_of_consecutive h.consecutive hitem]
        omega
      rw [if_neg (by omega), Ring.slot_eq h.ring.head_lt (lt_of_lt_of_le hin h.ring.length_le),
        h.ring.slot _ item hitem, hitem]
      simp only [Option.join_some, if_pos hsame]
    · rw [if_pos (by omega), List.getElem?_eq_none (by omega)]
  · have hlt : sequence < oldest.sequence := by
      rw [UInt64.le_iff_toNat_le] at hle
      rw [UInt64.lt_iff_toNat_lt]
      omega
    rw [if_neg hle]
    by_cases hzero : sequence = 0
    · rw [if_pos (Or.inr (Or.inr hzero))]
    · rw [if_neg (by simp [hsize, hslots, hzero]), hhead]
      simp only [Option.join_some, if_pos hlt]

/-- **`find` finds exactly the retained segments, by their numbers.** -/
theorem Holds.find_eq_some (h : history.Holds items) (sequence : UInt64) (item : Segment) :
    history.find sequence = some item ↔ item ∈ items ∧ item.sequence = sequence := by
  rcases hfirst : items[0]? with - | oldest
  · have hnil : items = [] := by simpa using hfirst
    have hsize : history.size = 0 := by rw [h.size_eq, hnil]; rfl
    rw [find, if_pos (Or.inl hsize), hnil]
    simp
  · have hchain : ∀ {i : Nat} {found : Segment}, items[i]? = some found →
        found.sequence.toNat = oldest.sequence.toNat + i := by
      intro i found hi
      rcases items with - | ⟨first, rest⟩
      · exact absurd hi (by simp)
      · cases hfirst
        exact sequence_of_consecutive h.consecutive hi
    rw [h.find_eq hfirst]
    constructor
    · intro hfind
      by_cases hle : oldest.sequence ≤ sequence
      · rw [if_pos hle] at hfind
        refine ⟨List.mem_of_getElem? hfind, ?_⟩
        rw [UInt64.le_iff_toNat_le] at hle
        rw [← UInt64.toNat_inj, hchain hfind]
        omega
      · rw [if_neg hle] at hfind
        exact absurd hfind (by simp)
    · rintro ⟨hmem, rfl⟩
      obtain ⟨i, hi⟩ := List.mem_iff_getElem?.mp hmem
      have hnumber := hchain hi
      have hle : oldest.sequence ≤ item.sequence := by
        rw [UInt64.le_iff_toNat_le]
        omega
      rw [if_pos hle, hnumber, Nat.add_sub_cancel_left]
      exact hi

/-! ### Every sequence of appends -/

/-- What the caller hands to an append, and whether the copy of the state finds its memory. -/
structure Request where
  binding : Binding
  record : Record
  state : List UInt8
  allocates : Bool
  deriving DecidableEq, Repr

/-- A history, made with or without an anchor. -/
def construct (maxSize : Nat) (allocates : Bool) (previous : Option Checkpoint)
    (retention : Retention) : History :=
  match previous with
  | none => make maxSize allocates retention
  | some previous => makeAnchored maxSize allocates previous retention

/-- One append of a run; the second component collects the segments that were accepted. -/
def runStep (request : Request) (run : History × List Segment) :
    Checked ε (History × List Segment) := do
  let (answer, next) ← run.1.append request.binding request.record request.state request.allocates
  let accepted :=
    if answer.code = .ok then run.2 ++ (next.segment (next.size - 1)).toList else run.2
  pure (next, accepted)

/-- Appends in a row. -/
def runAppends (requests : List Request) (history : History) :
    Checked ε (History × List Segment) :=
  forEach requests runStep (history, [])

/-- A history that was never put in order: it rejects everything. -/
structure Unprepared (history : History) : Prop where
  code_ne : history.code ≠ .ok
  size_eq : history.size = 0
  anchor_none : history.anchor = none
  bytes_eq : history.retainedBytes = 0
  events_eq : history.retainedEvents = 0

/-- What is known of a history at any time: it holds the newest of the accepted segments, or it
was never put in order and accepted none. -/
structure Keeps (history : History) (accepted items : List Segment) : Prop where
  newest : items <:+ accepted
  started : items = [] → accepted = []
  consecutive : Consecutive accepted
  holds : history.Holds items ∨ items = [] ∧ history.Unprepared

theorem Unprepared.append_eq (h : history.Unprepared) (binding : Binding) (record : Record)
    (state : List UInt8) (allocates : Bool) :
    (history.append binding record state allocates : Checked ε (Append × History)) =
      Except.ok (history.reject history.code) := by
  rw [append, planAppend, require, if_neg h.code_ne]
  rfl

/-- The count of the rejected is no part of what is held. -/
theorem Holds.rejected (h : history.Holds items) (rejected : UInt64) :
    { history with rejectedSegments := rejected }.Holds items where
  ring := h.ring
  capacity := h.capacity
  size_eq := h.size_eq
  anchor_none := h.anchor_none
  bytes_eq := h.bytes_eq
  events_eq := h.events_eq
  bytes_le := h.bytes_le
  events_le := h.events_le
  numbered := h.numbered
  consecutive := h.consecutive

theorem Unprepared.rejected (h : history.Unprepared) (rejected : UInt64) :
    { history with rejectedSegments := rejected }.Unprepared where
  code_ne := h.code_ne
  size_eq := h.size_eq
  anchor_none := h.anchor_none
  bytes_eq := h.bytes_eq
  events_eq := h.events_eq

/-- A constructed history holds nothing yet. -/
theorem make_cases (maxSize : Nat) (allocates : Bool) (retention : Retention) :
    (make maxSize allocates retention).code = .ok ∧
        make maxSize allocates retention =
          { retention := retention, slots := List.replicate retention.maxSegments none,
            code := .ok } ∧
        (make maxSize allocates retention).Holds [] ∨
      (make maxSize allocates retention).code ≠ .ok ∧
        (make maxSize allocates retention).Unprepared := by
  rw [make]
  split_ifs with hinvalid hallocates
  · have hcode : ReplayCode.retentionInvalid ≠ .ok := by decide
    exact Or.inr ⟨hcode, hcode, rfl, rfl, rfl, rfl⟩
  · rw [not_or] at hinvalid
    refine Or.inl ⟨rfl, rfl, ?_⟩
    refine ⟨Ring.empty ?_, ?_, rfl, fun h => absurd rfl h, rfl, rfl, Nat.zero_le _,
      Nat.zero_le _, fun _ h => absurd h (by simp), List.isChain_nil⟩
    · show 0 < (List.replicate _ _).length
      rw [List.length_replicate]
      omega
    · exact List.length_replicate
  · have hcode : ReplayCode.retentionAllocationFailed ≠ .ok := by decide
    exact Or.inr ⟨hcode, hcode, rfl, rfl, rfl, rfl⟩

/-- An anchor counts with its bytes until a segment takes its place. -/
theorem makeAnchored_cases (maxSize : Nat) (allocates : Bool) (previous : Checkpoint)
    (retention : Retention) :
    (makeAnchored maxSize allocates previous retention).Holds [] ∨
      (makeAnchored maxSize allocates previous retention).Unprepared := by
  rw [makeAnchored]
  rcases make_cases maxSize allocates retention with ⟨hcode, hmade, hholds⟩ | ⟨hcode, hunprepared⟩
  · rw [if_neg (not_not_intro hcode)]
    split_ifs with hok hsize
    · refine Or.inr ⟨?_, ?_, ?_, ?_, ?_⟩
      · intro hprevious
        rw [Checkpoint.ok, show previous.code = .ok from hprevious] at hok
        exact absurd hok (by decide)
      · rw [hmade]
      · rw [hmade]
      · rw [hmade]
      · rw [hmade]
    · refine Or.inr ⟨?_, ?_, ?_, ?_, ?_⟩
      · show ReplayCode.retentionAnchorExceedsBounds ≠ .ok
        decide
      · rw [hmade]
      · rw [hmade]
      · rw [hmade]
      · rw [hmade]
    · have hretention : (make maxSize allocates retention).retention = retention := by rw [hmade]
      have hbound := retention.maxBytes.toNat_lt
      have hbytes : (UInt64.ofNat previous.stateSize).toNat = previous.stateSize := by
        rw [UInt64.toNat_ofNat', Nat.mod_eq_of_lt]
        omega
      refine Or.inl ⟨hholds.ring, hholds.capacity, hholds.size_eq, fun h => absurd rfl h, ?_,
        hholds.events_eq, ?_, hholds.events_le, hholds.numbered, hholds.consecutive⟩
      · show (UInt64.ofNat previous.stateSize).toNat = 0 + previous.stateSize
        rw [hbytes, Nat.zero_add]
      · show (UInt64.ofNat previous.stateSize).toNat ≤
          (make maxSize allocates retention).retention.maxBytes.toNat
        rw [hbytes, hretention]
        omega
  · rw [if_pos hcode]
    exact Or.inr hunprepared

theorem keeps_construct (maxSize : Nat) (allocates : Bool) (previous : Option Checkpoint)
    (retention : Retention) : (construct maxSize allocates previous retention).Keeps [] [] := by
  refine ⟨List.nil_suffix, fun _ => rfl, List.isChain_nil, ?_⟩
  rcases previous with - | previous
  · rcases make_cases maxSize allocates retention with ⟨-, -, hholds⟩ | ⟨-, hunprepared⟩
    · exact Or.inl hholds
    · exact Or.inr ⟨rfl, hunprepared⟩
  · rcases makeAnchored_cases maxSize allocates previous retention with hholds | hunprepared
    · exact Or.inl hholds
    · exact Or.inr ⟨rfl, hunprepared⟩

theorem construct_retention (maxSize : Nat) (allocates : Bool) (previous : Option Checkpoint)
    (retention : Retention) :
    (construct maxSize allocates previous retention).retention = retention := by
  have hmake : (make maxSize allocates retention).retention = retention := by
    rw [make]
    split_ifs
    · rfl
    · rfl
    · rfl
  rcases previous with - | previous
  · exact hmake
  · rw [construct, makeAnchored]
    split_ifs
    · exact hmake
    · exact hmake
    · exact hmake
    · exact hmake

/-- One append of a run keeps what is known. -/
theorem Keeps.step {accepted : List Segment} (h : history.Keeps accepted items)
    (request : Request) :
    ∃ next accepted' items', (runStep request (history, accepted) :
        Checked ε (History × List Segment)) = Except.ok (next, accepted') ∧
      next.retention = history.retention ∧ next.Keeps accepted' items' := by
  have hrejected : ∀ code, code ≠ ReplayCode.ok →
      (history.append request.binding request.record request.state request.allocates :
        Checked ε (Append × History)) = Except.ok (history.reject code) →
      (runStep request (history, accepted) : Checked ε (History × List Segment)) =
        Except.ok ({ history with
          rejectedSegments := counterSaturatingAdd history.rejectedSegments 1 }, accepted) := by
    intro code hcode happend
    rw [runStep, happend, ok_bind]
    show Except.ok ((history.reject code).2, if code = .ok then _ else accepted) = _
    rw [if_neg hcode, reject]
  rcases h.holds with hholds | ⟨hnil, hunprepared⟩
  · rcases @Holds.append_spec ε history items hholds request.binding request.record request.state
      request.allocates with ⟨code, hcode, happend⟩ | ⟨answer, next, new, happend, hok, -, hle,
      hnext, hretention, hnumber, -⟩
    · exact ⟨_, _, items, hrejected code hcode happend, rfl, h.newest, h.started, h.consecutive,
        Or.inl (hholds.rejected _)⟩
    · have hkept : next.segment (next.size - 1) = some new := by
        rw [hnext.segment_eq, hnext.size_eq, List.length_append, List.length_singleton,
          Nat.add_sub_cancel, List.getElem?_append_right (Nat.le_refl _), Nat.sub_self]
        rfl
      refine ⟨next, accepted ++ [new], items.drop answer.evictedSegments ++ [new], ?_, hretention,
        ?_, fun h => absurd h (by simp), ?_, Or.inl hnext⟩
      · rw [runStep, happend, ok_bind]
        show Except.ok (next, if answer.code = .ok then accepted ++ _ else _) = _
        rw [if_pos hok, hkept]
        rfl
      · obtain ⟨older, holder⟩ := h.newest
        refine ⟨older ++ items.take answer.evictedSegments, ?_⟩
        rw [← holder]
        simp only [List.append_assoc]
        rw [← List.append_assoc (items.take _), List.take_append_drop]
      · refine List.isChain_append.mpr ⟨h.consecutive, List.isChain_singleton _, ?_⟩
        intro item hitem new' hnew
        cases hnew
        refine hnumber item ?_
        -- the last accepted segment is still held, since some segment always is
        have hne : items ≠ [] := by
          intro hnil
          rw [h.started hnil] at hitem
          exact absurd hitem (by simp)
        obtain ⟨older, holder⟩ := h.newest
        rw [← holder, Option.mem_def, List.getLast?_append_of_ne_nil _ hne] at hitem
        exact hitem
  · have happend := @Unprepared.append_eq ε history hunprepared request.binding request.record
      request.state request.allocates
    exact ⟨_, _, items, hrejected _ hunprepared.code_ne happend, rfl, h.newest, h.started,
      h.consecutive, Or.inr ⟨hnil, hunprepared.rejected _⟩⟩

/-- A run never leaves the slots, and keeps what is known. -/
theorem Keeps.run {accepted : List Segment} (h : history.Keeps accepted items)
    (requests : List Request) :
    ∃ last accepted' items', (forEach requests runStep (history, accepted) :
        Checked ε (History × List Segment)) = Except.ok (last, accepted') ∧
      last.retention = history.retention ∧ last.Keeps accepted' items' := by
  induction requests generalizing history accepted items with
  | nil => exact ⟨history, accepted, items, rfl, rfl, h⟩
  | cons request requests ih =>
      obtain ⟨next, accepted', items', hstep, hretention, hnext⟩ := @Keeps.step ε _ _ _ h request
      obtain ⟨last, accepted'', items'', hrun, hlast, hkeeps⟩ := ih hnext
      refine ⟨last, accepted'', items'', ?_, hlast.trans hretention, hkeeps⟩
      rw [forEach, hstep, ok_bind]
      exact hrun

/-- **After any sequence of appends a history retains the newest of the accepted segments, with
consecutive numbers, within its bounds; it counts their bytes and events, and the bytes of its
anchor until a segment is accepted.  An append that is rejected changes the count of the rejected
ones only, and one that is accepted drops as few segments as it can.** -/
theorem retains_newest (maxSize : Nat) (allocates : Bool) (previous : Option Checkpoint)
    (retention : Retention) (requests : List Request) :
    ∃ (history : History) (accepted items : List Segment),
      (runAppends requests (construct maxSize allocates previous retention) :
        Checked ε (History × List Segment)) = Except.ok (history, accepted) ∧
      (∀ index, history.segment index = items[index]?) ∧ history.size = items.length ∧
      items <:+ accepted ∧ Consecutive accepted ∧
      history.retainedBytes.toNat = segmentBytes items + history.anchorBytes ∧
      (accepted ≠ [] → history.anchorBytes = 0) ∧
      history.retainedEvents.toNat = segmentEvents items ∧
      history.retainedBytes.toNat ≤ retention.maxBytes.toNat ∧
      history.retainedEvents.toNat ≤ retention.maxEvents.toNat ∧
      items.length ≤ retention.maxSegments ∧
      (∀ sequence item, history.find sequence = some item ↔
        item ∈ items ∧ item.sequence = sequence) ∧
      ∀ request : Request, ∃ (answer : Append) (next : History),
        (history.append request.binding request.record request.state request.allocates :
          Checked ε (Append × History)) = Except.ok (answer, next) ∧
        (answer.code ≠ .ok → next = { history with
          rejectedSegments := counterSaturatingAdd history.rejectedSegments 1 }) ∧
        (answer.code = .ok → ∃ new : Segment, new.sequence = answer.sequence ∧
          (∀ index, next.segment index =
            (items.drop answer.evictedSegments ++ [new])[index]?) ∧
          ∀ k < answer.evictedSegments, ¬ MakesRoom retention (items.drop k)
            new.byteCount.toNat new.eventCount.toNat) := by
  obtain ⟨history, accepted, items, hrun, hretention, hkeeps⟩ :=
    @Keeps.run ε _ _ _ (keeps_construct maxSize allocates previous retention) requests
  rw [construct_retention] at hretention
  refine ⟨history, accepted, items, hrun, ?_⟩
  rcases hkeeps.holds with hholds | ⟨rfl, hunprepared⟩
  · have hanchor : accepted ≠ [] → history.anchorBytes = 0 := by
      intro haccepted
      rw [anchorBytes, hholds.anchor_none fun hnil => haccepted (hkeeps.started hnil)]
    have hlength : items.length ≤ retention.maxSegments := by
      rw [← hretention, ← hholds.capacity]
      exact hholds.ring.length_le
    refine ⟨hholds.segment_eq, hholds.size_eq, hkeeps.newest, hkeeps.consecutive,
      hholds.bytes_eq, hanchor, hholds.events_eq, hretention ▸ hholds.bytes_le,
      hretention ▸ hholds.events_le, hlength, hholds.find_eq_some, fun request => ?_⟩
    rcases @Holds.append_spec ε history items hholds request.binding request.record request.state
      request.allocates with ⟨code, hcode, happend⟩ | ⟨answer, next, new, happend, hok, hnumber,
      -, hnext, -, -, hfewest⟩
    · rw [reject] at happend
      exact ⟨_, _, happend, fun _ => rfl, fun hok => absurd hok hcode⟩
    · refine ⟨answer, next, happend, fun hcode => absurd hok hcode, fun _ => ?_⟩
      exact ⟨new, hnumber.symm, hnext.segment_eq, hretention ▸ hfewest⟩
  · have hnone : history.anchorBytes = 0 := by rw [anchorBytes, hunprepared.anchor_none]
    refine ⟨fun index => ?_, hunprepared.size_eq, hkeeps.newest, hkeeps.consecutive, ?_,
      fun _ => hnone, ?_, ?_, ?_, Nat.zero_le _, fun sequence item => ?_, fun request => ?_⟩
    · rw [segment, if_pos (Or.inl (by rw [hunprepared.size_eq]; exact Nat.zero_le _))]
      rfl
    · rw [hunprepared.bytes_eq, hnone]
      rfl
    · rw [hunprepared.events_eq]
      rfl
    · rw [hunprepared.bytes_eq]
      exact Nat.zero_le _
    · rw [hunprepared.events_eq]
      exact Nat.zero_le _
    · rw [find, if_pos (Or.inl hunprepared.size_eq)]
      simp
    · have happend := @Unprepared.append_eq ε history hunprepared request.binding request.record
        request.state request.allocates
      rw [reject] at happend
      exact ⟨_, _, happend, fun _ => rfl, fun hok => absurd hok hunprepared.code_ne⟩

/-- A checkpoint after one segment, with one byte of state. -/
def oneByteAnchor : Checkpoint := { data := some (.make {} {} 1 [7]) }

/-- With an anchor and no segment, what is retained is the anchor. -/
theorem retainedBytes_counts_anchor :
    ¬ ∀ (maxSize : Nat) (allocates : Bool) (previous : Option Checkpoint) (retention : Retention)
      (requests : List Request), ∃ (history : History) (accepted items : List Segment),
      (runAppends requests (construct maxSize allocates previous retention) :
        Checked Unit (History × List Segment)) = Except.ok (history, accepted) ∧
      (∀ index, history.segment index = items[index]?) ∧ history.size = items.length ∧
      history.retainedBytes.toNat = segmentBytes items := by
  intro hall
  obtain ⟨history, accepted, items, hrun, -, hsize, hbytes⟩ :=
    hall 64 true (some oneByteAnchor) {} []
  have hstart : (construct 64 true (some oneByteAnchor) {}, []) = (history, accepted) :=
    Except.ok.inj hrun
  obtain ⟨rfl, -⟩ := Prod.mk.inj hstart
  have hempty : (construct 64 true (some oneByteAnchor) {}).size = 0 := by
    set_option maxRecDepth 2000 in decide
  have hone : (construct 64 true (some oneByteAnchor) {}).retainedBytes.toNat = 1 := by
    set_option maxRecDepth 2000 in decide
  rw [hempty] at hsize
  rw [hone, List.length_eq_zero_iff.mp hsize.symm] at hbytes
  exact absurd hbytes (by decide)

end History

end RunD
