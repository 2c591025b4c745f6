/-
The timer store over its runs.

The waits that were pushed, popped and cancelled are written down beside the
store (`Trace`).  What links the heap, the clock and the pushes (`Linked`) is
that no logical deadline in the store is before one that was popped: the popped
wait is the first of all in the heap, and a new deadline is not before the
logical time, which is the greatest popped deadline.  Waits with the same
deadline are told apart by their sequence, which goes up from push to push.
-/
import Mathlib.Data.List.Sort
import Mathlib.Data.Prod.Lex
import RunD.TimerStore

namespace RunD.Timer

/-! ### The order of the heap -/

/-- What the heap goes by: the logical deadline, then the sequence, then the task. -/
def rankOf (wait : TimerWait) : ℤ ×ₗ (ℕ ×ₗ ℕ) :=
  toLex (wait.deadlineNs, toLex (wait.sequence.toNat, wait.taskId.toNat))

theorem byRank_timerWaitAfter : ByRank timerWaitAfter rankOf := by
  intro lhs rhs
  rw [timerWaitAfter, rankOf, rankOf, Prod.Lex.toLex_lt_toLex, Prod.Lex.toLex_lt_toLex]
  by_cases hdeadline : lhs.deadlineNs = rhs.deadlineNs
  · rw [if_neg (not_not_intro hdeadline)]
    by_cases hsequence : lhs.sequence = rhs.sequence
    · rw [if_neg (not_not_intro hsequence), decide_eq_true_iff, gt_iff_lt,
        UInt64.lt_iff_toNat_lt, hdeadline, hsequence]
      simp
    · have hne : lhs.sequence.toNat ≠ rhs.sequence.toNat :=
        fun h => hsequence (UInt64.toNat_inj.mp h)
      rw [if_pos hsequence, decide_eq_true_iff, gt_iff_lt, UInt64.lt_iff_toNat_lt, hdeadline]
      simp [Ne.symm hne]
  · rw [if_pos hdeadline, decide_eq_true_iff, gt_iff_lt]
    simp [Ne.symm hdeadline]

/-- A wait comes before another one: it has an earlier deadline, or the same and was pushed
earlier. -/
def Before (first second : TimerWait) : Prop :=
  first.deadlineNs < second.deadlineNs ∨
    first.deadlineNs = second.deadlineNs ∧ first.sequence < second.sequence

theorem before_of_rank_le {first second : TimerWait} (h : rankOf first ≤ rankOf second)
    (hne : first.sequence ≠ second.sequence) : Before first second := by
  have hne' : first.sequence.toNat ≠ second.sequence.toNat :=
    fun heq => hne (UInt64.toNat_inj.mp heq)
  rw [rankOf, rankOf, Prod.Lex.toLex_le_toLex] at h
  rcases h with hlt | ⟨heq, hle⟩
  · exact Or.inl hlt
  · rw [Prod.Lex.toLex_le_toLex] at hle
    rcases hle with hlt | ⟨hsame, -⟩
    · exact Or.inr ⟨heq, UInt64.lt_iff_toNat_lt.mpr hlt⟩
    · exact absurd hsame hne'

/-! ### The index -/

theorem mem_rebuildTimerIndex {timers : List TimerWait} {entry : IndexEntry} :
    entry ∈ rebuildTimerIndex timers ↔
      ∃ wait, timers[entry.slot]? = some wait ∧ wait.waitId = entry.waitId := by
  rw [rebuildTimerIndex, (List.mergeSort_perm _ _).mem_iff, slotEntries, List.mem_map]
  constructor
  · rintro ⟨⟨wait, slot⟩, hmem, rfl⟩
    exact ⟨wait, List.mk_mem_zipIdx_iff_getElem?.mp hmem, rfl⟩
  · rintro ⟨wait, hget, hid⟩
    refine ⟨(wait, entry.slot), List.mk_mem_zipIdx_iff_getElem?.mpr hget, ?_⟩
    rw [hid]

theorem rebuildTimerIndex_sorted (timers : List TimerWait) :
    (rebuildTimerIndex timers).Pairwise fun lhs rhs => lhs.waitId ≤ rhs.waitId := by
  have hsorted := @List.pairwise_mergeSort _
    (fun (lhs rhs : IndexEntry) => decide (lhs.waitId ≤ rhs.waitId))
    (fun a b c hab hbc => by
      rw [decide_eq_true_iff, UInt64.le_iff_toNat_le] at hab hbc ⊢
      omega)
    (fun a b => by
      rw [Bool.or_eq_true, decide_eq_true_iff, decide_eq_true_iff, UInt64.le_iff_toNat_le,
        UInt64.le_iff_toNat_le]
      omega) (slotEntries timers)
  exact hsorted.imp fun h => of_decide_eq_true h

/-- **The index leads from each id to its slot.** -/
theorem findTimerWaitId_eq {timers : List TimerWait}
    (hids : (timers.map TimerWait.waitId).Nodup) {slot : Nat} {wait : TimerWait}
    (hget : timers[slot]? = some wait) :
    findTimerWaitId (rebuildTimerIndex timers) wait.waitId = some ⟨wait.waitId, slot⟩ := by
  have hmem : (⟨wait.waitId, slot⟩ : IndexEntry) ∈ rebuildTimerIndex timers :=
    mem_rebuildTimerIndex.mpr ⟨wait, hget, rfl⟩
  cases hfind : findTimerWaitId (rebuildTimerIndex timers) wait.waitId with
  | none =>
      have hnone := List.find?_eq_none.mp hfind _ hmem
      simp at hnone
  | some found =>
      obtain ⟨hstop, before, behind, hsplit, hpassed⟩ := List.find?_eq_some_iff_append.mp hfind
      have hge : ¬ found.waitId < wait.waitId := of_decide_eq_true hstop
      -- the entry of the wait is not passed, so the one that is found is not behind it
      have hle : found.waitId ≤ wait.waitId := by
        have hsorted := rebuildTimerIndex_sorted timers
        rw [hsplit] at hmem hsorted
        rcases List.mem_append.mp hmem with hbefore | hrest
        · have := hpassed _ hbefore
          simp at this
        · rcases List.mem_cons.mp hrest with rfl | hbehind
          · exact UInt64.le_refl _
          · exact (List.pairwise_cons.mp (List.pairwise_append.mp hsorted).2.1).1 _ hbehind
      have hid : found.waitId = wait.waitId := UInt64.le_antisymm hle (UInt64.not_lt.mp hge)
      obtain ⟨other, hother, hsame⟩ :=
        mem_rebuildTimerIndex.mp (List.mem_of_find?_eq_some hfind)
      have hslot : found.slot = slot := by
        obtain ⟨hlt, rfl⟩ := List.getElem?_eq_some_iff.mp hget
        obtain ⟨hlt', rfl⟩ := List.getElem?_eq_some_iff.mp hother
        have hin : slot < (timers.map TimerWait.waitId).length := by rwa [List.length_map]
        have hin' : found.slot < (timers.map TimerWait.waitId).length := by rwa [List.length_map]
        apply (@List.Nodup.getElem_inj_iff _ _ hids found.slot hin' slot hin).mp
        rw [List.getElem_map, List.getElem_map, hsame, hid]
      rw [← hid, ← hslot]

theorem foundSlot_eq {timers : List TimerWait} (hids : (timers.map TimerWait.waitId).Nodup)
    {slot : Nat} {wait : TimerWait} (hget : timers[slot]? = some wait) :
    foundSlot (rebuilt timers) wait.waitId = some (slot, wait) := by
  rw [foundSlot, rebuilt]
  dsimp only
  rw [findTimerWaitId_eq hids hget]
  dsimp only
  rw [if_neg (not_not_intro rfl), hget]
  dsimp only
  rw [if_neg (not_not_intro rfl)]

/-- An id that no wait has is not found. -/
theorem foundSlot_none {store : Store} {waitId : UInt64}
    (hnot : waitId ∉ store.timers.map TimerWait.waitId) : foundSlot store waitId = none := by
  rw [foundSlot]
  cases findTimerWaitId store.index waitId with
  | none => rfl
  | some found =>
      dsimp only
      by_cases hid : found.waitId ≠ waitId
      · rw [if_pos hid]
      · rw [if_neg hid]
        cases hget : store.timers[found.slot]? with
        | none => rfl
        | some wait =>
            dsimp only
            rw [if_pos]
            rintro rfl
            exact hnot (List.mem_map_of_mem (List.mem_of_getElem? hget))

/-! ### What the steps do to the timers -/

/-- Filling a slot with the last timer leaves the others. -/
theorem fill_slot_perm {timers : List TimerWait} {slot : Nat} {wait back : TimerWait}
    (hget : timers[slot]? = some wait) (hback : timers.getLast? = some back) :
    (wait :: (timers.set slot back).dropLast).Perm timers := by
  obtain ⟨init, rfl⟩ : ∃ init, timers = init ++ [back] := List.getLast?_eq_some_iff.mp hback
  have hlt := (List.getElem?_eq_some_iff.mp hget).1
  rw [List.length_append, List.length_singleton] at hlt
  by_cases hlast : slot = init.length
  · subst hlast
    rw [List.getElem?_concat_length] at hget
    obtain rfl := Option.some.inj hget
    rw [List.set_append_right _ _ (Nat.le_refl _), Nat.sub_self, List.set_cons_zero,
      List.dropLast_concat]
    exact (List.perm_append_singleton _ _).symm
  · have hin : slot < init.length := by omega
    rw [List.getElem?_append_left hin] at hget
    rw [List.set_append_left _ _ hin, List.dropLast_concat]
    obtain ⟨front, behind, hsplit, hfront⟩ : ∃ front behind, init = front ++ wait :: behind ∧
        front.length = slot := by
      refine ⟨init.take slot, init.drop (slot + 1), ?_, ?_⟩
      · obtain ⟨hin', rfl⟩ := List.getElem?_eq_some_iff.mp hget
        rw [List.getElem_cons_drop, List.take_append_drop]
      · rw [List.length_take, Nat.min_eq_left (by omega)]
    subst hsplit hfront
    rw [List.set_append_right _ _ (Nat.le_refl _), Nat.sub_self, List.set_cons_zero,
      List.append_assoc]
    refine List.perm_middle.symm.trans ?_
    refine List.Perm.append_left front ?_
    refine (List.Perm.swap back wait behind).trans ?_
    exact (List.perm_append_singleton back (wait :: behind)).symm

/-- What cancelling does: the wait with the id is taken out, if there is one. -/
theorem timerStoreCancel_spec {timers : List TimerWait}
    (hids : (timers.map TimerWait.waitId).Nodup) (waitId : UInt64) :
    (waitId ∉ timers.map TimerWait.waitId ∧
        timerStoreCancel (rebuilt timers) waitId = (none, rebuilt timers)) ∨
      ∃ wait rest, wait.waitId = waitId ∧ (wait :: rest).Perm timers ∧ Heaped rankOf rest ∧
        timerStoreCancel (rebuilt timers) waitId = (some wait, rebuilt rest) := by
  by_cases hmem : waitId ∈ timers.map TimerWait.waitId
  · right
    obtain ⟨wait, hwait, rfl⟩ := List.mem_map.mp hmem
    obtain ⟨slot, hslot, rfl⟩ := List.mem_iff_getElem.mp hwait
    have hget : timers[slot]? = some timers[slot] := List.getElem?_eq_getElem hslot
    obtain ⟨back, hback⟩ : ∃ back, timers.getLast? = some back := by
      cases hlast : timers.getLast? with
      | none =>
          rw [List.getLast?_eq_none_iff] at hlast
          subst hlast
          exact absurd hslot (Nat.not_lt_zero slot)
      | some back => exact ⟨back, rfl⟩
    obtain ⟨hperm, hheap⟩ :=
      makeHeap_spec byRank_timerWaitAfter (timers.set slot back).dropLast
    refine ⟨timers[slot], _, rfl, (hperm.cons _).trans (fill_slot_perm hget hback), hheap, ?_⟩
    have hlast : (rebuilt timers).timers.getLast? = some back := hback
    rw [timerStoreCancel, foundSlot_eq hids hget]
    dsimp only
    rw [hlast]
    rfl
  · left
    refine ⟨hmem, ?_⟩
    rw [timerStoreCancel, foundSlot_none hmem]

/-- What popping does: the first wait is taken out, if it is due. -/
theorem timerStorePopDue_spec {timers : List TimerWait} (hheap : Heaped rankOf timers)
    (now : Int) :
    timerStorePopDue (rebuilt timers) now = (none, rebuilt timers) ∨
      ∃ wait rest, wait.deadline ≤ now ∧ (wait :: rest).Perm timers ∧ Heaped rankOf rest ∧
        (∀ other ∈ rest, rankOf wait ≤ rankOf other) ∧
        timerStorePopDue (rebuilt timers) now = (some wait, rebuilt rest) := by
  cases timers with
  | nil => exact Or.inl rfl
  | cons front others =>
      rw [timerStorePopDue, rebuilt]
      dsimp only
      by_cases hlate : front.deadline > now
      · rw [if_pos hlate]
        exact Or.inl rfl
      · rw [if_neg hlate]
        right
        obtain ⟨heap, hpop, hperm, hheap'⟩ := popHeap_spec byRank_timerWaitAfter hheap
        refine ⟨front, heap, Int.not_lt.mp hlate, hperm.cons front, hheap', ?_, ?_⟩
        · intro other hother
          exact first_rank_le hheap (List.mem_cons_of_mem front (hperm.mem_iff.mp hother))
        · rw [hpop, List.getLast?_append, List.getLast?_singleton, List.dropLast_concat]
          rfl

/-! ### Runs -/

/-- The waits that were pushed, popped and cancelled, in this order each. -/
structure Trace where
  pushed : List TimerWait := []
  popped : List TimerWait := []
  cancelled : List TimerWait := []

/-- The runs of the store: ids are new, sequences go up, and durations are positive. -/
inductive Runs : Clocked → Trace → Prop where
  | start : Runs {} {}
  | push {clocked : Clocked} {trace : Trace} (taskId waitId sequence : UInt64)
      (now duration : Int) :
      Runs clocked trace → 0 < duration → duration ≤ kNanosecondsMax →
      (∀ wait ∈ trace.pushed, wait.waitId ≠ waitId) →
      (∀ wait ∈ trace.pushed, wait.sequence < sequence) →
      Runs (clocked.push (clocked.newWait taskId waitId sequence now duration))
        { trace with
          pushed := trace.pushed ++ [clocked.newWait taskId waitId sequence now duration] }
  | cancel {clocked : Clocked} {trace : Trace} (waitId : UInt64) :
      Runs clocked trace →
      Runs (clocked.cancel waitId).2
        { trace with cancelled := trace.cancelled ++ (clocked.cancel waitId).1.toList }
  | popDue {clocked : Clocked} {trace : Trace} (now : Int) :
      Runs clocked trace →
      Runs (clocked.popDue now).2
        { trace with popped := trace.popped ++ (clocked.popDue now).1.toList }

/-- What links the heap, the clock and the pushes. -/
structure Linked (clocked : Clocked) (trace : Trace) : Prop where
  index : clocked.store = rebuilt clocked.store.timers
  heap : Heaped rankOf clocked.store.timers
  accounted : (clocked.store.timers ++ (trace.popped ++ trace.cancelled)).Perm trace.pushed
  ids : (trace.pushed.map TimerWait.waitId).Nodup
  sequences : trace.pushed.Pairwise fun first second => first.sequence < second.sequence
  bounded : clocked.logicalTimeNs ≤ kNanosecondsMax
  reached : ∀ wait ∈ trace.popped, wait.deadlineNs ≤ clocked.logicalTimeNs
  stored : ∀ wait ∈ clocked.store.timers, wait.deadlineNs ≤ kNanosecondsMax
  ahead : ∀ first ∈ trace.popped, ∀ second ∈ clocked.store.timers, Before first second
  ordered : trace.popped.Pairwise Before

namespace Linked

variable {clocked : Clocked} {trace : Trace}

theorem start : Linked {} {} := by
  have hindex : rebuilt [] = {} := by
    rw [rebuilt, rebuildTimerIndex, slotEntries, List.zipIdx_nil, List.map_nil, List.mergeSort_nil]
  refine ⟨hindex.symm, ?_, List.Perm.refl [], List.nodup_nil, List.Pairwise.nil, by decide, ?_, ?_, ?_,
    List.Pairwise.nil⟩
  · intro i _ hi
    exact absurd hi (Nat.not_lt_zero i)
  · intro wait hmem
    exact absurd hmem List.not_mem_nil
  · intro wait hmem
    exact absurd hmem List.not_mem_nil
  · intro wait hmem
    exact absurd hmem List.not_mem_nil

variable (h : Linked clocked trace)

include h

theorem pushed_of_popped {wait : TimerWait} (hmem : wait ∈ trace.popped) : wait ∈ trace.pushed :=
  h.accounted.mem_iff.mp (List.mem_append_right _ (List.mem_append_left _ hmem))

theorem stored_ids : (clocked.store.timers.map TimerWait.waitId).Nodup := by
  have hall := (h.accounted.map TimerWait.waitId).nodup_iff.mpr h.ids
  rw [List.map_append] at hall
  exact (List.nodup_append.mp hall).1

theorem stored_sequences : (clocked.store.timers.map TimerWait.sequence).Nodup := by
  have hpushed : (trace.pushed.map TimerWait.sequence).Nodup := by
    rw [List.Nodup, List.pairwise_map]
    refine h.sequences.imp ?_
    intro first second hlt heq
    rw [heq] at hlt
    exact UInt64.lt_irrefl _ hlt
  have hall := (h.accounted.map TimerWait.sequence).nodup_iff.mpr hpushed
  rw [List.map_append] at hall
  exact (List.nodup_append.mp hall).1

/-- A new logical deadline is past the logical time, or it is the greatest there is. -/
theorem newWait_deadline (taskId waitId sequence : UInt64) (now : Int) {duration : Int}
    (hpos : 0 < duration) :
    clocked.logicalTimeNs ≤ (clocked.newWait taskId waitId sequence now duration).deadlineNs ∧
      (clocked.newWait taskId waitId sequence now duration).deadlineNs ≤ kNanosecondsMax := by
  have hbounded := h.bounded
  show clocked.logicalTimeNs ≤ (makeTimerDeadline now clocked.logicalTimeNs duration).2 ∧ _
  rw [Clocked.newWait]
  dsimp only
  rw [makeTimerDeadline]
  by_cases hover : duration > 0 ∧ clocked.logicalTimeNs > kNanosecondsMax - duration
  · rw [if_pos hover]
    exact ⟨hbounded, Int.le_refl _⟩
  · rw [if_neg hover]
    dsimp only
    omega

/-- **A push keeps the link.** -/
theorem push (taskId waitId sequence : UInt64) (now : Int) {duration : Int} (hpos : 0 < duration)
    (hid : ∀ wait ∈ trace.pushed, wait.waitId ≠ waitId)
    (hsequence : ∀ wait ∈ trace.pushed, wait.sequence < sequence) :
    Linked (clocked.push (clocked.newWait taskId waitId sequence now duration))
      { trace with
        pushed := trace.pushed ++ [clocked.newWait taskId waitId sequence now duration] } := by
  obtain ⟨hlater, hgreatest⟩ := h.newWait_deadline taskId waitId sequence now hpos
  have hnewId : (clocked.newWait taskId waitId sequence now duration).waitId = waitId := rfl
  have hnewSequence : (clocked.newWait taskId waitId sequence now duration).sequence = sequence :=
    rfl
  generalize clocked.newWait taskId waitId sequence now duration = wait at *
  obtain ⟨hperm, hheap⟩ := pushHeap_spec byRank_timerWaitAfter h.heap wait
  have hmem : ∀ other, other ∈ (clocked.push wait).store.timers →
      other ∈ clocked.store.timers ∨ other = wait := by
    intro other hother
    have hin := hperm.mem_iff.mp hother
    rw [List.mem_append, List.mem_singleton] at hin
    exact hin
  refine ⟨rfl, hheap, ?_, ?_, ?_, h.bounded, h.reached, ?_, ?_, h.ordered⟩
  · refine (hperm.append_right _).trans ?_
    rw [List.append_assoc]
    refine (List.perm_append_comm.append_left _).trans ?_
    rw [← List.append_assoc]
    exact h.accounted.append_right [wait]
  · rw [List.map_append, List.nodup_append]
    refine ⟨h.ids, List.nodup_singleton _, ?_⟩
    intro id hold other hnew
    rw [List.map_singleton, List.mem_singleton] at hnew
    obtain ⟨old, hpushed, rfl⟩ := List.mem_map.mp hold
    rw [hnew, hnewId]
    exact hid old hpushed
  · rw [List.pairwise_append]
    refine ⟨h.sequences, List.pairwise_singleton _ _, ?_⟩
    intro old hold other hnew
    rw [List.mem_singleton] at hnew
    rw [hnew, hnewSequence]
    exact hsequence old hold
  · intro other hother
    rcases hmem other hother with hold | rfl
    · exact h.stored other hold
    · exact hgreatest
  · intro first hfirst second hsecond
    rcases hmem second hsecond with hold | rfl
    · exact h.ahead first hfirst second hold
    · have hreached := h.reached first hfirst
      rcases Int.lt_or_eq_of_le (Int.le_trans hreached hlater) with hlt | heq
      · exact Or.inl hlt
      · refine Or.inr ⟨heq, ?_⟩
        rw [hnewSequence]
        exact hsequence first (h.pushed_of_popped hfirst)

/-- **A cancel keeps the link.** -/
theorem cancel (waitId : UInt64) :
    Linked (clocked.cancel waitId).2
      { trace with cancelled := trace.cancelled ++ (clocked.cancel waitId).1.toList } := by
  rw [Clocked.cancel, h.index]
  rcases timerStoreCancel_spec h.stored_ids waitId with ⟨-, hrun⟩ |
    ⟨wait, rest, -, hperm, hheap, hrun⟩
  · rw [hrun]
    dsimp only
    rw [Option.toList_none, List.append_nil, ← h.index]
    exact h
  · rw [hrun]
    have hin : ∀ other ∈ rest, other ∈ clocked.store.timers :=
      fun other hother => hperm.mem_iff.mp (List.mem_cons_of_mem wait hother)
    refine ⟨rfl, hheap, ?_, h.ids, h.sequences, h.bounded, h.reached, ?_, ?_, h.ordered⟩
    · refine List.Perm.trans ?_ ((hperm.append_right _).trans h.accounted)
      show (rest ++ (trace.popped ++ (trace.cancelled ++ [wait]))).Perm _
      rw [← List.append_assoc, ← List.append_assoc, ← List.append_assoc]
      refine (List.perm_append_singleton wait _).trans ?_
      rw [List.append_assoc, List.append_assoc]
      rfl
    · exact fun other hother => h.stored other (hin other hother)
    · exact fun first hfirst second hsecond => h.ahead first hfirst second (hin second hsecond)

/-- **A pop keeps the link**: the popped wait is the first of all that are stored. -/
theorem popDue (now : Int) :
    Linked (clocked.popDue now).2
      { trace with popped := trace.popped ++ (clocked.popDue now).1.toList } := by
  rw [Clocked.popDue, h.index]
  rcases timerStorePopDue_spec h.heap now with hrun | ⟨wait, rest, -, hperm, hheap, hfirst, hrun⟩
  · rw [hrun]
    dsimp only
    rw [Option.toList_none, List.append_nil, ← h.index]
    exact h
  · rw [hrun]
    dsimp only
    have hwait : wait ∈ clocked.store.timers := hperm.mem_iff.mp (List.mem_cons_self ..)
    have hin : ∀ other ∈ rest, other ∈ clocked.store.timers :=
      fun other hother => hperm.mem_iff.mp (List.mem_cons_of_mem wait hother)
    have hsequences := (hperm.map TimerWait.sequence).nodup_iff.mpr h.stored_sequences
    rw [List.map_cons, List.nodup_cons] at hsequences
    have hbefore : ∀ other ∈ rest, Before wait other := by
      intro other hother
      apply before_of_rank_le (hfirst other hother)
      intro heq
      exact hsequences.1 (List.mem_map.mpr ⟨other, hother, heq.symm⟩)
    refine ⟨rfl, hheap, ?_, h.ids, h.sequences, ?_, ?_, ?_, ?_, ?_⟩
    · refine List.Perm.trans ?_ ((hperm.append_right _).trans h.accounted)
      show (rest ++ ((trace.popped ++ [wait]) ++ trace.cancelled)).Perm
        (wait :: rest ++ (trace.popped ++ trace.cancelled))
      rw [List.append_assoc trace.popped, List.singleton_append]
      refine (List.perm_middle.append_left rest).trans ?_
      exact List.perm_middle
    · exact max_le h.bounded (h.stored wait hwait)
    · intro other hother
      rcases List.mem_append.mp hother with hold | hnew
      · exact le_trans (h.reached other hold) (le_max_left _ _)
      · rw [List.mem_singleton.mp hnew]
        exact le_max_right _ _
    · exact fun other hother => h.stored other (hin other hother)
    · intro first hpopped second hsecond
      rcases List.mem_append.mp hpopped with hold | hnew
      · exact h.ahead first hold second (hin second hsecond)
      · rw [List.mem_singleton.mp hnew]
        exact hbefore second hsecond
    · show (trace.popped ++ [wait]).Pairwise Before
      rw [List.pairwise_append]
      refine ⟨h.ordered, List.pairwise_singleton _ _, ?_⟩
      intro first hpopped second hsecond
      rw [List.mem_singleton.mp hsecond]
      exact h.ahead first hpopped wait hwait

end Linked

theorem Runs.linked {clocked : Clocked} {trace : Trace} (h : Runs clocked trace) :
    Linked clocked trace := by
  induction h with
  | start => exact Linked.start
  | push taskId waitId sequence now duration _ hpos _ hid hsequence ih =>
      exact ih.push taskId waitId sequence now hpos hid hsequence
  | cancel waitId _ ih => exact ih.cancel waitId
  | popDue now _ ih => exact ih.popDue now

/-- Waits in the order of their pushes. -/
def PushedBefore (first second : TimerWait) : Prop := first.sequence < second.sequence

instance : Std.Antisymm PushedBefore where
  antisymm _ _ h h' := absurd (UInt64.lt_trans h h') (UInt64.lt_irrefl _)

/-- What holds of the store, the logical time and what was done so far. -/
structure Kept (clocked : Clocked) (trace : Trace) : Prop where
  /-- The index leads from each stored id to its slot, and from nowhere else. -/
  indexed : ∀ slot wait, clocked.store.timers[slot]? = some wait →
    findTimerWaitId clocked.store.index wait.waitId = some ⟨wait.waitId, slot⟩
  onlyStored : ∀ entry ∈ clocked.store.index, ∃ wait,
    clocked.store.timers[entry.slot]? = some wait ∧ wait.waitId = entry.waitId
  /-- What was pushed is stored, popped or cancelled, and once only. -/
  once : (clocked.store.timers ++ (trace.popped ++ trace.cancelled)).Perm trace.pushed
  distinct : trace.pushed.Nodup
  /-- Popped logical deadlines never go down. -/
  monotone : trace.popped.Pairwise fun first second => first.deadlineNs ≤ second.deadlineNs
  /-- Equal ones come out in the order of their pushes. -/
  ties : ∀ deadline, (trace.popped.filter fun wait => wait.deadlineNs = deadline).Sublist
    trace.pushed

end RunD.Timer
