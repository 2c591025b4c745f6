/-
The locked sections of a channel do to its contents what they should.

A section that is entered with sound contents has a result, its control holds the
contents after the operation, and these are sound again.  What is asked of the
task is that it has no slot in common with those that the channel knows.
-/
import RunD.ChannelContents

namespace RunD.Channel

variable {α : Type} {taskSlot : Nat → Nat} {control : Control α} {x : Contents α}

namespace Contents.Sound

theorem nodup_held (hs : x.Sound taskSlot) : ((x.held.map Prod.fst).map taskSlot).Nodup := by
  have hapart := hs.apart
  rw [Contents.owners, List.map_append, List.map_append, List.nodup_append,
    List.nodup_append] at hapart
  exact hapart.1.2.1

/-- A sender that waits has no completed send. -/
theorem vacant_completed (hs : x.Sound taskSlot) {t : Nat} {value : α}
    (ht : (t, value) ∈ x.parked) : Vacant taskSlot x.completed t := by
  intro u y hu heq
  have hapart := hs.apart
  rw [Contents.owners, List.map_append, List.map_append, List.map_append, List.append_assoc,
    List.append_assoc] at hapart
  refine (List.nodup_append.mp hapart).2.2 (taskSlot t) ?_ (taskSlot u) ?_ heq.symm
  · rw [List.map_map]
    exact List.mem_map_of_mem (f := taskSlot ∘ Prod.fst) ht
  · refine List.mem_append_right _ (List.mem_append_right _ ?_)
    rw [List.map_map]
    exact List.mem_map_of_mem (f := taskSlot ∘ Prod.fst) hu

/-- A receiver that waits has nothing lying ready. -/
theorem vacant_held (hs : x.Sound taskSlot) {t : Nat} (ht : t ∈ x.waiting) :
    Vacant taskSlot x.held t := by
  intro u y hu heq
  have hapart := hs.apart
  rw [Contents.owners, List.map_append, List.map_append, List.map_append, List.append_assoc] at hapart
  refine (List.nodup_append.mp hapart).2.2 (taskSlot t) ?_ (taskSlot u) ?_ heq.symm
  · exact List.mem_append_right _ (List.mem_map_of_mem ht)
  · refine List.mem_append_left _ ?_
    rw [List.map_map]
    exact List.mem_map_of_mem (f := taskSlot ∘ Prod.fst) hu

end Contents.Sound

/-- Nothing lies ready for a stranger. -/
theorem Contents.Stranger.vacant_held {t : Nat} (ht : x.Stranger taskSlot t) :
    Vacant taskSlot x.held t := by
  intro u y hu heq
  apply ht
  rw [Contents.owners, ← heq]
  refine List.mem_map_of_mem (List.mem_append_left _ (List.mem_append_right _ ?_))
  exact List.mem_map_of_mem (f := Prod.fst) hu

/-! ### Sending -/

/-- A value is handed to the receiver that has waited longest. -/
theorem Represents.handOver (h : Represents taskSlot control x) (hs : x.Sound taskSlot)
    {receiver : Nat} {others : List Nat} (hx : x.waiting = receiver :: others) (value : α) :
    ∃ control', control.ensureRendezvousStorage.popRecvWaiter taskSlot = (some receiver, control') ∧
      Represents taskSlot (control'.pushRendezvous taskSlot receiver value)
        { x with waiting := others, held := x.held ++ [(receiver, value)] } := by
  obtain ⟨hmade, hlength⟩ := h.ensureRendezvousStorage
  obtain ⟨control', hpop, hrest, hkept, hlt⟩ := hmade.popRecvWaiter hx
  refine ⟨control', hpop, hrest.pushRendezvous ?_ ?_ value⟩
  · rw [hkept, hlength]
    exact hlt
  · exact hs.vacant_held (hx ▸ List.mem_cons_self ..)

/-- **The locked section of a send does what sending does to the contents.** -/
theorem sendSection_eq (h : Represents taskSlot control x) (hs : x.Sound taskSlot) {t : Nat}
    (hpos : t ≠ 0) (hfree : x.Stranger taskSlot t) (value : α) :
    ∃ control', sendSection taskSlot false t value control =
        some ((x.send taskSlot t value).1, control') ∧
      Represents taskSlot control' (x.send taskSlot t value).2 := by
  rw [sendSection, if_neg Bool.false_ne_true]
  dsimp only
  by_cases hclosed : x.closed = true
  · rw [if_pos (h.closed_eq.trans hclosed), Contents.send, if_pos hclosed]
    exact ⟨control, rfl, h⟩
  rw [h.closed_eq, if_neg hclosed, Contents.send, if_neg hclosed, Bool.not_false, Bool.true_and,
    Bool.true_and]
  rcases hwaiting : x.waiting with - | ⟨receiver, others⟩
  · -- nobody waits for the value
    have hnone : control.hasRecvWaiters = false := by
      rw [← Bool.not_eq_true, h.hasRecvWaiters_iff]
      exact not_not_intro hwaiting
    rw [hnone, Bool.false_and, if_neg Bool.false_ne_true]
    dsimp only
    by_cases hroom : x.buffered.length < x.capacity
    · have hopen : control.bufferFull = false := by
        rw [← Bool.not_eq_true, h.bufferFull_iff]
        omega
      obtain ⟨control', hpush, hnext⟩ := h.pushBuffered value hroom
      rw [hopen, Bool.not_false, if_pos rfl, if_pos hroom, hpush]
      rw [hwaiting] at hnext
      refine ⟨control', ?_, hnext⟩
      show some (SendSection.passed none control'.bufferSize, control') = _
      rw [hnext.size_eq, List.length_append, List.length_singleton]
    · have hfull : control.bufferFull = true := by
        rw [h.bufferFull_iff]
        have := hs.room
        omega
      rw [hfull, Bool.not_true, if_neg Bool.false_ne_true, if_pos rfl, if_neg hroom]
      by_cases hslot : taskSlot t < x.taskCapacity
      · obtain ⟨control', hpush, hnext⟩ := h.pushSendWaiter hpos hslot hfree value
        rw [hwaiting] at hnext
        rw [hpush, if_pos hslot]
        exact ⟨control', rfl, hnext⟩
      · obtain ⟨control', hpush, hnext⟩ := h.pushSendWaiter_refused hslot value
        rw [hpush, if_neg hslot]
        exact ⟨control', rfl, hnext⟩
  · -- the buffer is empty, so a channel that has one is not full
    have hsome : control.hasRecvWaiters = true := by
      rw [h.hasRecvWaiters_iff, hwaiting]
      exact List.cons_ne_nil _ _
    have hempty := (hs.starving (hwaiting ▸ List.cons_ne_nil _ _)).1
    have hgoes : (control.capacity == 0 || !control.bufferFull) = true := by
      rw [Bool.or_eq_true, beq_iff_eq, Bool.not_eq_true', ← Bool.not_eq_true, h.bufferFull_iff,
        hempty, h.capacity_eq, List.length_nil]
      omega
    obtain ⟨control', hpop, hnext⟩ := h.handOver hs hwaiting value
    rw [hsome, hgoes, Bool.true_and, if_pos rfl, hpop]
    refine ⟨control'.pushRendezvous taskSlot receiver value, ?_, hnext⟩
    dsimp only
    rw [hnext.size_eq]

/-! ### Receiving -/

/-- Nobody waits for a value of the buffer. -/
theorem Represents.passBuffered_idle (h : Represents taskSlot control x)
    (hidle : x.buffered = [] ∨ x.waiting = []) :
    control.passBuffered taskSlot = some (none, control) := by
  rw [Control.passBuffered, if_neg]
  rw [Bool.and_eq_true, Bool.not_eq_true', ← Bool.not_eq_true, h.bufferEmpty_iff,
    h.hasRecvWaiters_iff]
  rintro ⟨hsome, hwaits⟩
  rcases hidle with hempty | hnone
  · exact hsome hempty
  · exact hwaits hnone

/-- The value of the first sender takes the free place of the buffer. -/
theorem Represents.refill (h : Represents taskSlot control x) {t : Nat} {value : α}
    {others : List (Nat × α)} (hx : x.parked = (t, value) :: others)
    (hroom : x.buffered.length < x.capacity) (hfree : Vacant taskSlot x.completed t) :
    ∃ control', control.refill taskSlot = some (some t, control') ∧
      Represents taskSlot control'
        { x with
          buffered := x.buffered ++ [value]
          parked := others
          completed := x.completed ++ [(t, x.buffered.length + 1)] } := by
  obtain ⟨popped, hpop, hrest, hlt⟩ := h.popSendWaiter hx
  obtain ⟨pushed, hpush, hnext⟩ := hrest.pushBuffered value hroom
  have hkept : pushed.sendWaiters = popped.sendWaiters := by
    rw [Control.pushBuffered] at hpush
    split at hpush
    · cases hpush
    · cases hpush
      rfl
  have hsize : pushed.bufferSize = x.buffered.length + 1 := by
    rw [hnext.size_eq, List.length_append, List.length_singleton]
  rw [Control.refill, hpop]
  dsimp only [bind, Option.bind]
  rw [hpush]
  dsimp only
  rw [hsize]
  exact ⟨_, rfl, hnext.completeParkedSend (hkept ▸ hlt) hfree _⟩

/-- **The locked section of a receive does what receiving does to the contents.** -/
theorem recvSection_eq (h : Represents taskSlot control x) (hs : x.Sound taskSlot) {t : Nat}
    (hpos : t ≠ 0) (hfree : x.Stranger taskSlot t) :
    ∃ control', recvSection taskSlot false t control =
        some ((x.recv taskSlot t).1, control') ∧
      Represents taskSlot control' (x.recv taskSlot t).2 := by
  have hidle : ¬ (control.hasRecvWaiters && !control.bufferEmpty) = true := by
    rw [Bool.and_eq_true, Bool.not_eq_true', ← Bool.not_eq_true, h.bufferEmpty_iff,
      h.hasRecvWaiters_iff]
    rintro ⟨hwaits, hsome⟩
    exact hsome (hs.starving hwaits).1
  have htake : control.takeRendezvous taskSlot t = (none, control) := by
    rw [Control.takeRendezvous, h.rendezvous.entryAt_vacant hfree.vacant_held]
  rw [recvSection]
  dsimp only
  rw [if_neg hidle, htake]
  dsimp only
  rcases hbuffered : x.buffered with - | ⟨value, rest⟩
  · have hempty : control.bufferEmpty = true := h.bufferEmpty_iff.mpr hbuffered
    rw [hempty, Bool.not_true, if_neg Bool.false_ne_true]
    rcases hparked : x.parked with - | ⟨⟨sender, parked⟩, others⟩
    · have hnone : ¬ control.hasSendWaiters = true := by
        rw [h.hasSendWaiters_iff]
        exact not_not_intro hparked
      rw [if_neg hnone, Contents.recv, hbuffered, hparked]
      dsimp only
      by_cases hclosed : x.closed = true
      · rw [if_pos (h.closed_eq.trans hclosed), if_pos hclosed]
        exact ⟨control, rfl, h⟩
      · rw [h.closed_eq, if_neg hclosed, if_neg hclosed, Bool.not_false, if_pos rfl]
        by_cases hslot : taskSlot t < x.taskCapacity
        · obtain ⟨control', hpush, hnext⟩ := h.pushRecvWaiter hpos hslot hfree
          rw [hbuffered, hparked] at hnext
          rw [hpush, if_pos hslot]
          exact ⟨control', rfl, hnext⟩
        · obtain ⟨control', hpush, hnext⟩ := h.pushRecvWaiter_refused hslot
          rw [hpush, if_neg hslot]
          exact ⟨control', rfl, hnext⟩
    · -- without a buffer the value comes from its sender
      have hsome : control.hasSendWaiters = true := by
        rw [h.hasSendWaiters_iff, hparked]
        exact List.cons_ne_nil _ _
      obtain ⟨popped, hpop, hrest, hlt⟩ := h.popSendWaiter hparked
      have hvacant := hs.vacant_completed (hparked ▸ List.mem_cons_self ..)
      have hsize : popped.bufferSize = 0 := by
        rw [hrest.size_eq, hbuffered, List.length_nil]
      have hnext := hrest.completeParkedSend hlt hvacant 0
      rw [if_pos hsome, hpop, Contents.recv, hbuffered, hparked]
      dsimp only [bind, Option.bind]
      rw [hsize]
      refine ⟨popped.completeParkedSend taskSlot sender 0, ?_, hbuffered ▸ hnext⟩
      rw [show (popped.completeParkedSend taskSlot sender 0).bufferSize = 0 from hsize]
  · have hsome : control.bufferEmpty = false := by
      rw [← Bool.not_eq_true, h.bufferEmpty_iff, hbuffered]
      exact List.cons_ne_nil _ _
    obtain ⟨popped, hpop, hrest⟩ := h.popBuffered hbuffered hs.room
    -- a receiver would be waiting for nothing
    have hwaiting : x.waiting = [] := by
      by_contra hwaits
      have := (hs.starving hwaits).1
      rw [hbuffered] at this
      cases this
    have hroom := hs.room
    rw [hbuffered, List.length_cons] at hroom
    rw [hsome, Bool.not_false, if_pos rfl, hpop]
    dsimp only [bind, Option.bind]
    rcases hparked : x.parked with - | ⟨⟨sender, parked⟩, others⟩
    · have hrefill : popped.refill taskSlot = some (none, popped) := by
        rw [Control.refill, hrest.popSendWaiter_none hparked]
      rw [hrefill]
      dsimp only
      rw [hrest.passBuffered_idle (Or.inr hwaiting), Contents.recv, hbuffered, hparked]
      dsimp only
      rw [hrest.size_eq]
      exact ⟨popped, rfl, hparked ▸ hrest⟩
    · have hvacant := hs.vacant_completed (hparked ▸ List.mem_cons_self ..)
      obtain ⟨filled, hrefill, hnext⟩ := hrest.refill hparked (Nat.lt_of_succ_le hroom) hvacant
      rw [hrefill]
      dsimp only
      rw [hnext.passBuffered_idle (Or.inr hwaiting), Contents.recv, hbuffered, hparked]
      dsimp only
      rw [hnext.size_eq]
      refine ⟨filled, ?_, hnext⟩
      dsimp only
      rw [List.length_append, List.length_singleton]

/-! ### Resuming -/

theorem resumeSend_eq (h : Represents taskSlot control x) {t : Nat}
    (halone : Alone taskSlot x.completed t) :
    ∃ control', resumeSend taskSlot t control = ((x.resumeSend t).1, control') ∧
      Represents taskSlot control' (x.resumeSend t).2 := by
  have hread := h.completions.entryAt_eq_lookup halone
  rw [resumeSend, Control.takeCompletedSend, hread, Contents.resumeSend]
  rcases hlookup : x.completed.lookup t with - | valueCount
  · dsimp only
    rw [h.closed_eq, filter_absent hlookup]
    exact ⟨control, rfl, h⟩
  · refine ⟨_, rfl, { h with completions := h.completions.drop halone, completionRoom := ?_ }⟩
    exact (List.length_set ..).trans h.completionRoom

theorem resumeRecv_eq (h : Represents taskSlot control x) {t : Nat}
    (halone : Alone taskSlot x.held t) :
    ∃ control', resumeRecv taskSlot t control = ((x.resumeRecv t).1, control') ∧
      Represents taskSlot control' (x.resumeRecv t).2 := by
  have hread := h.rendezvous.entryAt_eq_lookup halone
  rw [resumeRecv, Control.takeRendezvous, hread, Contents.resumeRecv]
  rcases hlookup : x.held.lookup t with - | value
  · dsimp only
    rw [h.closed_eq, filter_absent hlookup]
    exact ⟨control, rfl, h⟩
  · rw [← h.size_eq]
    refine ⟨_, rfl, { h with rendezvous := h.rendezvous.drop halone, rendezvousRoom := ?_ }⟩
    dsimp only
    rw [List.length_set]
    exact h.rendezvousRoom

/-! ### Withdrawing -/

/-- A sender that waits is taken out with its value. -/
theorem removeSendWaiter_eq (h : Represents taskSlot control x) {t : Nat} {value : α}
    (ht : (t, value) ∈ x.parked) :
    Represents taskSlot (control.removeSendWaiter taskSlot t) (x.withdrawSend t) := by
  obtain ⟨before, rest, hsplit⟩ := List.append_of_mem ht
  have hvacant := h.vacant_parked hsplit
  have hqueue := h.senders
  rw [hsplit, List.map_append, List.map_cons] at hqueue
  have hother : t ∉ (before ++ rest).map Prod.fst := by
    intro hin
    obtain ⟨⟨u, y⟩, hu, rfl⟩ := List.mem_map.mp hin
    exact hvacant u y hu rfl
  obtain ⟨hremoved, hsize⟩ := hqueue.remove
  have hactive : control.sendWaiters.active taskSlot t = true := by
    rw [hqueue.active_eq]
    exact List.mem_map_of_mem (List.mem_append_right _ (List.mem_cons_self ..))
  have hvalues := h.values
  rw [hsplit] at hvalues
  rw [Control.removeSendWaiter, if_pos hactive, Contents.withdrawSend, hsplit, filter_split hother]
  refine { h with
    senders := ?_, values := hvalues.take hvacant
    sendRoom := ?_, valueRoom := ?_, completionRoom := ?_ }
  · rw [List.map_append]
    exact hremoved
  · rw [hsize]
    exact h.sendRoom
  · rw [hsize, ← h.valueRoom]
    exact List.length_set ..
  · rw [hsize]
    exact h.completionRoom

/-- A receiver that waits is taken out. -/
theorem removeRecvWaiter_eq (h : Represents taskSlot control x) {t : Nat} (ht : t ∈ x.waiting) :
    Represents taskSlot (control.removeRecvWaiter taskSlot t) (x.withdrawRecv t) := by
  obtain ⟨before, rest, hsplit⟩ := List.append_of_mem ht
  have hqueue := h.receivers
  rw [hsplit] at hqueue
  have hother : t ∉ before ++ rest := (List.nodup_middle.mp hqueue.ids_nodup).notMem
  have hfilter : (before ++ t :: rest).filter (· != t) = before ++ rest := by
    rw [List.filter_append, List.filter_cons_of_neg (by simp), ← List.filter_append,
      List.filter_eq_self]
    intro u hu
    apply bne_iff_ne.mpr
    rintro rfl
    exact hother hu
  obtain ⟨hremoved, hsize⟩ := hqueue.remove
  rw [Contents.withdrawRecv, hsplit, hfilter]
  refine { h with receivers := hremoved, recvRoom := ?_ }
  rw [Control.removeRecvWaiter, hsize]
  exact h.recvRoom

/-! ### Closing -/

theorem popSenders_eq : ∀ {parked : List (Nat × α)} {fuel : Nat} {control : Control α}
    {x : Contents α}, Represents taskSlot control x → x.parked = parked → parked.length < fuel →
    ∃ control', popSenders taskSlot fuel control = (parked.map Prod.fst, control') ∧
      Represents taskSlot control' { x with parked := [] } := by
  intro parked
  induction parked with
  | nil =>
      intro fuel control x h hx hfuel
      obtain ⟨fuel, rfl⟩ := Nat.exists_eq_succ_of_ne_zero (Nat.ne_of_gt hfuel)
      rw [popSenders, h.popSendWaiter_none hx]
      exact ⟨control, rfl, hx ▸ h⟩
  | cons first others ih =>
      intro fuel control x h hx hfuel
      obtain ⟨fuel, rfl⟩ := Nat.exists_eq_succ_of_ne_zero (Nat.ne_of_gt (Nat.zero_lt_of_lt hfuel))
      obtain ⟨popped, hpop, hrest, -⟩ := h.popSendWaiter hx
      obtain ⟨control', hothers, hnext⟩ := ih hrest rfl (Nat.lt_of_succ_lt_succ hfuel)
      rw [popSenders, hpop]
      dsimp only
      rw [hothers]
      exact ⟨control', rfl, hnext⟩

theorem popReceivers_eq : ∀ {waiting : List Nat} {fuel : Nat} {control : Control α}
    {x : Contents α}, Represents taskSlot control x → x.waiting = waiting →
    waiting.length < fuel →
    ∃ control', popReceivers taskSlot fuel control = (waiting, control') ∧
      Represents taskSlot control' { x with waiting := [] } := by
  intro waiting
  induction waiting with
  | nil =>
      intro fuel control x h hx hfuel
      obtain ⟨fuel, rfl⟩ := Nat.exists_eq_succ_of_ne_zero (Nat.ne_of_gt hfuel)
      rw [popReceivers, h.popRecvWaiter_none hx]
      exact ⟨control, rfl, hx ▸ h⟩
  | cons first others ih =>
      intro fuel control x h hx hfuel
      obtain ⟨fuel, rfl⟩ := Nat.exists_eq_succ_of_ne_zero (Nat.ne_of_gt (Nat.zero_lt_of_lt hfuel))
      obtain ⟨popped, hpop, hrest, -⟩ := h.popRecvWaiter hx
      obtain ⟨control', hothers, hnext⟩ := ih hrest rfl (Nat.lt_of_succ_lt_succ hfuel)
      rw [popReceivers, hpop]
      dsimp only
      rw [hothers]
      exact ⟨control', rfl, hnext⟩

/-- Nobody waits, so the ends of the queues are what they are set to. -/
theorem Represents.clearEnds (h : Represents taskSlot control x) (hparked : x.parked = [])
    (hwaiting : x.waiting = []) :
    Represents taskSlot
      { control with
        sendWaiters := { control.sendWaiters with head := 0, tail := 0 }
        recvWaiters := { control.recvWaiters with head := 0, tail := 0 } } x := by
  have hsenders := h.senders
  have hreceivers := h.receivers
  rw [hparked] at hsenders
  rw [hwaiting] at hreceivers
  refine { h with senders := ?_, receivers := ?_ }
  · rw [hsenders.ends_nil]
    exact h.senders
  · rw [hreceivers.ends_nil]
    exact h.receivers

/-- **The locked section of `close` does what closing does to the contents.** -/
theorem closeSection_eq (h : Represents taskSlot control x) :
    ∃ control', closeSection taskSlot control = (x.close.1, control') ∧
      Represents taskSlot control' x.close.2 := by
  have hclosed : Represents taskSlot { control with closed := true } { x with closed := true } :=
    { h with closed_eq := rfl }
  rw [closeSection]
  dsimp only
  by_cases hwaits : x.parked = [] ∧ x.waiting = []
  · have hnone : ¬ (Control.hasSendWaiters { control with closed := true } ||
        Control.hasRecvWaiters { control with closed := true }) = true := by
      rw [Bool.or_eq_true, hclosed.hasSendWaiters_iff, hclosed.hasRecvWaiters_iff]
      rintro (hsend | hrecv)
      · exact hsend hwaits.1
      · exact hrecv hwaits.2
    have hsame : x.close = ([], { x with closed := true }) := by
      rw [Contents.close, hwaits.1, hwaits.2]
      rfl
    rw [if_neg hnone, hsame]
    exact ⟨_, rfl, hclosed.clearEnds hwaits.1 hwaits.2⟩
  · have hsome : (Control.hasSendWaiters { control with closed := true } ||
        Control.hasRecvWaiters { control with closed := true }) = true := by
      rw [Bool.or_eq_true, hclosed.hasSendWaiters_iff, hclosed.hasRecvWaiters_iff]
      by_cases hparked : x.parked = []
      · exact Or.inr fun hwaiting => hwaits ⟨hparked, hwaiting⟩
      · exact Or.inl hparked
    have hsenders := hclosed.senders.links.length_le hclosed.senders.nodup
    rw [List.length_map] at hsenders
    obtain ⟨popped, hpop, hrest⟩ := popSenders_eq hclosed rfl (Nat.lt_succ_of_le hsenders)
    have hreceivers := hrest.receivers.links.length_le hrest.receivers.nodup
    obtain ⟨emptied, hempty, hlast⟩ := popReceivers_eq hrest rfl (Nat.lt_succ_of_le hreceivers)
    rw [if_pos hsome, hpop]
    dsimp only
    rw [hempty]
    exact ⟨_, rfl, hlast.clearEnds rfl rfl⟩

end RunD.Channel
