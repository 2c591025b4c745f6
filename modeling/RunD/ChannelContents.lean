/-
What a channel contains, and what its operations do to it.

A channel contains the buffered values, the senders that wait with theirs, the
receivers that wait, the values that lie ready for receivers and the sends that
have been completed for their senders.  `Contents` has these as lists, and its
operations work on the lists.  `Represents` says that the rings, queues and tables
of a `Control` hold such contents, and each locked section is shown to do what the
operation on the contents does (`sendSection_eq`, `recvSection_eq`,
`closeSection_eq`).
-/
import RunD.Channel

namespace RunD.Channel

variable {α : Type}

/-! ### The contents -/

/-- What a channel contains. -/
structure Contents (α : Type) where
  capacity : Nat
  taskCapacity : Nat
  buffered : List α := []
  parked : List (Nat × α) := []
  waiting : List Nat := []
  held : List (Nat × α) := []
  completed : List (Nat × Nat) := []
  closed : Bool := false

namespace Contents

variable (taskSlot : Nat → Nat) (x : Contents α)

/-- A value goes to a receiver, into the buffer, or waits with its sender. -/
def send (taskId : Nat) (value : α) : SendSection × Contents α :=
  if x.closed then (SendSection.failed ReasonCode.channelClosed, x)
  else
    match x.waiting with
    | receiver :: others =>
        (SendSection.passed (some receiver) x.buffered.length,
          { x with waiting := others, held := x.held ++ [(receiver, value)] })
    | [] =>
        if x.buffered.length < x.capacity then
          (SendSection.passed none (x.buffered.length + 1),
            { x with buffered := x.buffered ++ [value] })
        else if taskSlot taskId < x.taskCapacity then
          (SendSection.queued, { x with parked := x.parked ++ [(taskId, value)] })
        else (SendSection.failed ReasonCode.channelCapacityExceeded, x)

/-- The first value is taken out of the buffer, or from the first sender that waits; a sender's
value takes the free place of the buffer. -/
def recv (taskId : Nat) : RecvSection α × Contents α :=
  match x.buffered, x.parked with
  | value :: rest, (sender, parked) :: others =>
      (RecvSection.received value (some sender) none (rest.length + 1),
        { x with
          buffered := rest ++ [parked]
          parked := others
          completed := x.completed ++ [(sender, rest.length + 1)] })
  | value :: rest, [] =>
      (RecvSection.received value none none rest.length, { x with buffered := rest })
  | [], (sender, parked) :: others =>
      (RecvSection.received parked (some sender) none 0,
        { x with parked := others, completed := x.completed ++ [(sender, 0)] })
  | [], [] =>
      if x.closed then (RecvSection.failed ReasonCode.channelClosed, x)
      else if taskSlot taskId < x.taskCapacity then
        (RecvSection.queued, { x with waiting := x.waiting ++ [taskId] })
      else (RecvSection.failed ReasonCode.channelCapacityExceeded, x)

/-- Nobody waits for a closed channel. -/
def close : List Nat × Contents α :=
  (x.parked.map Prod.fst ++ x.waiting, { x with closed := true, parked := [], waiting := [] })

/-- A sender no longer waits. -/
def withdrawSend (t : Nat) : Contents α :=
  { x with parked := x.parked.filter (·.1 != t) }

/-- A receiver no longer waits. -/
def withdrawRecv (t : Nat) : Contents α := { x with waiting := x.waiting.filter (· != t) }

/-- A sender is told of its completed send. -/
def resumeSend (t : Nat) : Except ReasonCode Nat × Contents α :=
  (match x.completed.lookup t with
    | some valueCount => Except.ok valueCount
    | none =>
        Except.error
          (if x.closed then ReasonCode.channelClosed else ReasonCode.taskContextMissing),
    { x with completed := x.completed.filter (·.1 != t) })

/-- A receiver takes the value that lies ready for it. -/
def resumeRecv (t : Nat) : Except ReasonCode (α × Nat) × Contents α :=
  (match x.held.lookup t with
    | some value => Except.ok (value, x.buffered.length)
    | none =>
        Except.error
          (if x.closed then ReasonCode.channelClosed else ReasonCode.taskContextMissing),
    { x with held := x.held.filter (·.1 != t) })

/-- The tasks that the channel knows. -/
def owners : List Nat :=
  x.parked.map Prod.fst ++ x.waiting ++ x.held.map Prod.fst ++ x.completed.map Prod.fst

end Contents

/-- What sending can do. -/
theorem Contents.send_cases (taskSlot : Nat → Nat) (x : Contents α) (t : Nat) (value : α) :
    (∃ code, x.send taskSlot t value = (SendSection.failed code, x) ∧
      (code = ReasonCode.channelClosed ∧ x.closed = true ∨
        code = ReasonCode.channelCapacityExceeded ∧ ¬ taskSlot t < x.taskCapacity)) ∨
    (∃ receiver others, ¬ x.closed = true ∧ x.waiting = receiver :: others ∧
      x.send taskSlot t value = (SendSection.passed (some receiver) x.buffered.length,
        { x with waiting := others, held := x.held ++ [(receiver, value)] })) ∨
    (¬ x.closed = true ∧ x.waiting = [] ∧ x.buffered.length < x.capacity ∧
      x.send taskSlot t value = (SendSection.passed none (x.buffered.length + 1),
        { x with buffered := x.buffered ++ [value] })) ∨
    (¬ x.closed = true ∧ x.waiting = [] ∧ ¬ x.buffered.length < x.capacity ∧
      x.send taskSlot t value = (SendSection.queued,
        { x with parked := x.parked ++ [(t, value)] })) := by
  rw [Contents.send]
  by_cases hclosed : x.closed = true
  · rw [if_pos hclosed]
    exact Or.inl ⟨_, rfl, Or.inl ⟨rfl, hclosed⟩⟩
  rw [if_neg hclosed]
  rcases hwaiting : x.waiting with - | ⟨receiver, others⟩
  · dsimp only
    by_cases hroom : x.buffered.length < x.capacity
    · rw [if_pos hroom, ← hwaiting]
      exact Or.inr (Or.inr (Or.inl ⟨hclosed, rfl, hroom, rfl⟩))
    · rw [if_neg hroom]
      by_cases hslot : taskSlot t < x.taskCapacity
      · rw [if_pos hslot, ← hwaiting]
        exact Or.inr (Or.inr (Or.inr ⟨hclosed, rfl, hroom, rfl⟩))
      · rw [if_neg hslot]
        exact Or.inl ⟨_, rfl, Or.inr ⟨rfl, hslot⟩⟩
  · exact Or.inr (Or.inl ⟨receiver, others, hclosed, rfl, rfl⟩)

/-- What receiving can do. -/
theorem Contents.recv_cases (taskSlot : Nat → Nat) (x : Contents α) (t : Nat) :
    (∃ code, x.buffered = [] ∧ x.parked = [] ∧ x.recv taskSlot t = (RecvSection.failed code, x) ∧
      (code = ReasonCode.channelClosed ∧ x.closed = true ∨
        code = ReasonCode.channelCapacityExceeded ∧ ¬ taskSlot t < x.taskCapacity)) ∨
    (∃ value rest, x.buffered = value :: rest ∧ x.parked = [] ∧
      x.recv taskSlot t = (RecvSection.received value none none rest.length,
        { x with buffered := rest })) ∨
    (∃ value rest sender parked others, x.buffered = value :: rest ∧
      x.parked = (sender, parked) :: others ∧
      x.recv taskSlot t = (RecvSection.received value (some sender) none (rest.length + 1),
        { x with
          buffered := rest ++ [parked]
          parked := others
          completed := x.completed ++ [(sender, rest.length + 1)] })) ∨
    (∃ sender parked others, x.buffered = [] ∧ x.parked = (sender, parked) :: others ∧
      x.recv taskSlot t = (RecvSection.received parked (some sender) none 0,
        { x with parked := others, completed := x.completed ++ [(sender, 0)] })) ∨
    (¬ x.closed = true ∧ x.buffered = [] ∧ x.parked = [] ∧
      x.recv taskSlot t = (RecvSection.queued, { x with waiting := x.waiting ++ [t] })) := by
  rw [Contents.recv]
  rcases hbuffered : x.buffered with - | ⟨value, rest⟩
  · rcases hparked : x.parked with - | ⟨⟨sender, parked⟩, others⟩
    · dsimp only
      by_cases hclosed : x.closed = true
      · rw [if_pos hclosed]
        exact Or.inl ⟨_, rfl, rfl, rfl, Or.inl ⟨rfl, hclosed⟩⟩
      · rw [if_neg hclosed]
        by_cases hslot : taskSlot t < x.taskCapacity
        · rw [if_pos hslot]
          exact Or.inr (Or.inr (Or.inr (Or.inr ⟨hclosed, rfl, rfl, rfl⟩)))
        · rw [if_neg hslot]
          exact Or.inl ⟨_, rfl, rfl, rfl, Or.inr ⟨rfl, hslot⟩⟩
    · exact Or.inr (Or.inr (Or.inr (Or.inl ⟨sender, parked, others, rfl, rfl, rfl⟩)))
  · rcases hparked : x.parked with - | ⟨⟨sender, parked⟩, others⟩
    · exact Or.inr (Or.inl ⟨value, rest, rfl, rfl, rfl⟩)
    · exact Or.inr (Or.inr (Or.inl ⟨value, rest, sender, parked, others, rfl, rfl, rfl⟩))

/-- **What holds of the contents at all times**: receivers wait only where there is nothing to
receive, senders only where the buffer is full, nobody waits for a closed channel, and no two
tasks that it knows have one slot. -/
structure Contents.Sound (taskSlot : Nat → Nat) (x : Contents α) : Prop where
  room : x.buffered.length ≤ x.capacity
  starving : x.waiting ≠ [] → x.buffered = [] ∧ x.parked = []
  full : x.parked ≠ [] → x.buffered.length = x.capacity
  quiet : x.closed = true → x.parked = [] ∧ x.waiting = []
  apart : (x.owners.map taskSlot).Nodup

/-- The task has no slot in common with the tasks that the channel knows. -/
def Contents.Stranger (taskSlot : Nat → Nat) (x : Contents α) (t : Nat) : Prop :=
  taskSlot t ∉ x.owners.map taskSlot

namespace Contents.Sound

variable {taskSlot : Nat → Nat} {x y : Contents α} {t : Nat}

theorem apart_of_perm (hs : x.Sound taskSlot) (hperm : y.owners.Perm x.owners) :
    (y.owners.map taskSlot).Nodup :=
  (hperm.map taskSlot).nodup_iff.mpr hs.apart

theorem apart_of_stranger (hs : x.Sound taskSlot) (ht : x.Stranger taskSlot t)
    (hperm : y.owners.Perm (t :: x.owners)) : (y.owners.map taskSlot).Nodup := by
  rw [(hperm.map taskSlot).nodup_iff, List.map_cons, List.nodup_cons]
  exact ⟨ht, hs.apart⟩

theorem apart_of_sublist (hs : x.Sound taskSlot) (hsub : y.owners.Sublist x.owners) :
    (y.owners.map taskSlot).Nodup :=
  hs.apart.sublist (hsub.map taskSlot)

theorem send (hs : x.Sound taskSlot) (ht : x.Stranger taskSlot t) (value : α) :
    (x.send taskSlot t value).2.Sound taskSlot := by
  rw [Contents.send]
  by_cases hclosed : x.closed = true
  · rw [if_pos hclosed]
    exact hs
  rw [if_neg hclosed]
  rcases hwaiting : x.waiting with - | ⟨receiver, others⟩
  · dsimp only
    by_cases hroom : x.buffered.length < x.capacity
    · -- a sender would be waiting although there is room
      have hparked : x.parked = [] := by
        by_contra hwaits
        have := hs.full hwaits
        omega
      rw [if_pos hroom]
      refine ⟨?_, fun h => absurd rfl h, fun h => absurd hparked h,
        fun h => absurd h hclosed, hs.apart_of_perm ?_⟩
      · dsimp only
        rw [List.length_append, List.length_singleton]
        exact hroom
      · rw [Contents.owners, Contents.owners, hwaiting]
    · rw [if_neg hroom]
      by_cases hslot : taskSlot t < x.taskCapacity
      · rw [if_pos hslot]
        refine ⟨hs.room, fun h => absurd rfl h, fun _ => ?_, fun h => absurd h hclosed,
          hs.apart_of_stranger ht ?_⟩
        · exact Nat.le_antisymm hs.room (Nat.le_of_not_lt hroom)
        · rw [List.perm_iff_count]
          intro u
          simp only [Contents.owners, hwaiting, List.map_append, List.map_cons, List.map_nil,
            List.count_append, List.count_cons, List.count_nil]
          omega
      · rw [if_neg hslot]
        exact hs
  · have hstarving := hs.starving (hwaiting ▸ List.cons_ne_nil _ _)
    refine ⟨hs.room, fun _ => hstarving, hs.full, fun h => absurd h hclosed,
      hs.apart_of_perm ?_⟩
    rw [List.perm_iff_count]
    intro u
    simp only [Contents.owners, hwaiting, List.map_append, List.map_cons, List.map_nil,
      List.count_append, List.count_cons, List.count_nil]
    omega

theorem recv (hs : x.Sound taskSlot) (ht : x.Stranger taskSlot t) :
    (x.recv taskSlot t).2.Sound taskSlot := by
  have hroom := hs.room
  rw [Contents.recv]
  rcases hbuffered : x.buffered with - | ⟨value, rest⟩
  · rcases hparked : x.parked with - | ⟨⟨sender, parked⟩, others⟩
    · dsimp only
      by_cases hclosed : x.closed = true
      · rw [if_pos hclosed]
        exact hs
      rw [if_neg hclosed]
      by_cases hslot : taskSlot t < x.taskCapacity
      · rw [if_pos hslot]
        refine ⟨Nat.zero_le _, fun _ => ⟨rfl, rfl⟩, fun h => absurd rfl h,
          fun h => absurd h hclosed, hs.apart_of_stranger ht ?_⟩
        rw [List.perm_iff_count]
        intro u
        simp only [Contents.owners, hparked, List.map_nil, List.count_append, List.count_cons,
          List.count_nil]
        omega
      · rw [if_neg hslot]
        exact hs
    · have hfull := hs.full (hparked ▸ List.cons_ne_nil _ _)
      have hwaiting : x.waiting = [] := by
        by_contra hwaits
        have := (hs.starving hwaits).2
        rw [hparked] at this
        cases this
      have hopen : ¬ x.closed = true := by
        intro hclosed
        have := (hs.quiet hclosed).1
        rw [hparked] at this
        cases this
      rw [hbuffered] at hfull
      refine ⟨Nat.zero_le _, fun h => absurd hwaiting h, fun _ => hfull,
        fun h => absurd h hopen, hs.apart_of_perm ?_⟩
      rw [List.perm_iff_count]
      intro u
      simp only [Contents.owners, hparked, List.map_append, List.map_cons, List.map_nil,
        List.count_append, List.count_cons, List.count_nil]
      omega
  · have hwaiting : x.waiting = [] := by
      by_contra hwaits
      have := (hs.starving hwaits).1
      rw [hbuffered] at this
      cases this
    rw [hbuffered, List.length_cons] at hroom
    rcases hparked : x.parked with - | ⟨⟨sender, parked⟩, others⟩
    · refine ⟨Nat.le_of_succ_le hroom, fun h => absurd hwaiting h, fun h => absurd rfl h,
        fun h => ⟨rfl, hwaiting⟩, hs.apart_of_perm ?_⟩
      rw [Contents.owners, Contents.owners, hparked]
    · have hfull := hs.full (hparked ▸ List.cons_ne_nil _ _)
      have hopen : ¬ x.closed = true := by
        intro hclosed
        have := (hs.quiet hclosed).1
        rw [hparked] at this
        cases this
      rw [hbuffered, List.length_cons] at hfull
      refine ⟨?_, fun h => absurd hwaiting h, fun _ => ?_, fun h => absurd h hopen,
        hs.apart_of_perm ?_⟩
      · dsimp only
        rw [List.length_append, List.length_singleton]
        exact hroom
      · dsimp only
        rw [List.length_append, List.length_singleton]
        exact hfull
      · rw [List.perm_iff_count]
        intro u
        simp only [Contents.owners, hparked, List.map_append, List.map_cons, List.map_nil,
          List.count_append, List.count_cons, List.count_nil]
        omega

theorem close (hs : x.Sound taskSlot) : x.close.2.Sound taskSlot where
  room := hs.room
  starving := fun h => absurd rfl h
  full := fun h => absurd rfl h
  quiet := fun _ => ⟨rfl, rfl⟩
  apart := by
    apply hs.apart_of_sublist
    rw [Contents.owners, Contents.owners]
    dsimp only [Contents.close]
    exact ((List.nil_sublist _).append_right _).append_right _

theorem withdrawSend (hs : x.Sound taskSlot) (t : Nat) : (x.withdrawSend t).Sound taskSlot where
  room := hs.room
  starving := by
    intro h
    obtain ⟨hempty, hparked⟩ := hs.starving h
    refine ⟨hempty, ?_⟩
    dsimp only [Contents.withdrawSend]
    rw [hparked]
    rfl
  full := by
    intro h
    apply hs.full
    intro hparked
    apply h
    dsimp only [Contents.withdrawSend]
    rw [hparked]
    rfl
  quiet := by
    intro h
    obtain ⟨hparked, hwaiting⟩ := hs.quiet h
    refine ⟨?_, hwaiting⟩
    dsimp only [Contents.withdrawSend]
    rw [hparked]
    rfl
  apart := by
    apply hs.apart_of_sublist
    rw [Contents.owners, Contents.owners]
    exact (((List.filter_sublist.map _).append_right _).append_right _).append_right _

theorem withdrawRecv (hs : x.Sound taskSlot) (t : Nat) : (x.withdrawRecv t).Sound taskSlot where
  room := hs.room
  starving := by
    intro h
    apply hs.starving
    intro hwaiting
    apply h
    dsimp only [Contents.withdrawRecv]
    rw [hwaiting]
    rfl
  full := hs.full
  quiet := by
    intro h
    obtain ⟨hparked, hwaiting⟩ := hs.quiet h
    refine ⟨hparked, ?_⟩
    dsimp only [Contents.withdrawRecv]
    rw [hwaiting]
    rfl
  apart := by
    apply hs.apart_of_sublist
    rw [Contents.owners, Contents.owners]
    exact ((List.filter_sublist.append_left _).append_right _).append_right _

theorem resumeSend (hs : x.Sound taskSlot) (t : Nat) : (x.resumeSend t).2.Sound taskSlot where
  room := hs.room
  starving := hs.starving
  full := hs.full
  quiet := hs.quiet
  apart := by
    apply hs.apart_of_sublist
    rw [Contents.owners, Contents.owners]
    exact (List.filter_sublist.map _).append_left _

theorem resumeRecv (hs : x.Sound taskSlot) (t : Nat) : (x.resumeRecv t).2.Sound taskSlot where
  room := hs.room
  starving := hs.starving
  full := hs.full
  quiet := hs.quiet
  apart := by
    apply hs.apart_of_sublist
    rw [Contents.owners, Contents.owners]
    exact ((List.filter_sublist.map _).append_left _).append_right _

end Contents.Sound

/-! ### What represents them -/

/-- The rings, queues and tables hold the contents. -/
structure Represents (taskSlot : Nat → Nat) (control : Control α) (x : Contents α) : Prop where
  capacity_eq : control.capacity = x.capacity
  taskCapacity_eq : control.taskCapacity = x.taskCapacity
  closed_eq : control.closed = x.closed
  ring : x.capacity ≠ 0 → Ring control.buffer control.bufferHead x.buffered
  length_eq : control.buffer.length = x.capacity
  size_eq : control.bufferSize = x.buffered.length
  senders : Queued taskSlot control.sendWaiters (x.parked.map Prod.fst)
  receivers : Queued taskSlot control.recvWaiters x.waiting
  values : Tabled taskSlot control.sendValueByTask x.parked
  rendezvous : Tabled taskSlot control.rendezvousByReceiver x.held
  completions : Tabled taskSlot control.completedSendByTask x.completed
  sendRoom : control.sendWaiters.next.length = 0 ∨
    control.sendWaiters.next.length = x.taskCapacity
  valueRoom : control.sendValueByTask.length = control.sendWaiters.next.length
  completionRoom : control.completedSendByTask.length = control.sendWaiters.next.length
  recvRoom : control.recvWaiters.next.length = 0 ∨
    control.recvWaiters.next.length = x.taskCapacity
  rendezvousRoom : control.rendezvousByReceiver.length = 0 ∨
    control.rendezvousByReceiver.length = x.taskCapacity

/-- A new channel contains nothing. -/
theorem represents_make (taskSlot : Nat → Nat) (capacity taskCapacity : Nat) :
    Represents taskSlot (Control.make capacity taskCapacity : Control α)
      { capacity, taskCapacity } where
  capacity_eq := rfl
  taskCapacity_eq := rfl
  closed_eq := rfl
  ring := by
    intro hpos
    apply Ring.empty
    show 0 < (List.replicate capacity none).length
    rw [List.length_replicate]
    exact Nat.pos_of_ne_zero hpos
  length_eq := List.length_replicate
  size_eq := rfl
  senders := Queued.empty taskSlot
  receivers := Queued.empty taskSlot
  values := Tabled.replicate taskSlot 0
  rendezvous := Tabled.replicate taskSlot 0
  completions := Tabled.replicate taskSlot 0
  sendRoom := Or.inl rfl
  valueRoom := rfl
  completionRoom := rfl
  recvRoom := Or.inl rfl
  rendezvousRoom := Or.inl rfl

theorem sound_make (taskSlot : Nat → Nat) (capacity taskCapacity : Nat) :
    ({ capacity, taskCapacity } : Contents α).Sound taskSlot where
  room := Nat.zero_le _
  starving := fun h => absurd rfl h
  full := fun h => absurd rfl h
  quiet := fun h => Bool.noConfusion h
  apart := List.nodup_nil

namespace Represents

variable {taskSlot : Nat → Nat} {control : Control α} {x : Contents α}

/-! ### The buffer -/

theorem bufferEmpty_iff (h : Represents taskSlot control x) :
    control.bufferEmpty = true ↔ x.buffered = [] := by
  rw [Control.bufferEmpty, beq_iff_eq, h.size_eq, List.length_eq_zero_iff]

theorem bufferFull_iff (h : Represents taskSlot control x) :
    control.bufferFull = true ↔ x.buffered.length = x.capacity := by
  rw [Control.bufferFull, beq_iff_eq, h.size_eq, h.capacity_eq]

theorem hasSendWaiters_iff (h : Represents taskSlot control x) :
    control.hasSendWaiters = true ↔ x.parked ≠ [] := by
  rw [Control.hasSendWaiters, bne_iff_ne, h.senders.count_eq, List.length_map, ne_eq,
    List.length_eq_zero_iff]

theorem hasRecvWaiters_iff (h : Represents taskSlot control x) :
    control.hasRecvWaiters = true ↔ x.waiting ≠ [] := by
  rw [Control.hasRecvWaiters, bne_iff_ne, h.receivers.count_eq, ne_eq, List.length_eq_zero_iff]

/-- A value is put into a buffer that is not full. -/
theorem pushBuffered (h : Represents taskSlot control x) (value : α)
    (hroom : x.buffered.length < x.capacity) :
    ∃ control', control.pushBuffered value = some control' ∧
      Represents taskSlot control' { x with buffered := x.buffered ++ [value] } := by
  have hpos : x.capacity ≠ 0 := by omega
  have hring := h.ring hpos
  have hlength : control.buffer.length = control.capacity := h.length_eq.trans h.capacity_eq.symm
  have hindex : (control.bufferHead + control.bufferSize) % control.capacity <
      control.buffer.length := by
    rw [hlength]
    apply Nat.mod_lt
    rw [h.capacity_eq]
    omega
  rw [Control.pushBuffered, if_neg (by rw [not_or]; exact ⟨h.capacity_eq ▸ hpos, Nat.not_le_of_lt hindex⟩)]
  refine ⟨_, rfl, { h with ring := ?_, length_eq := ?_, size_eq := ?_ }⟩
  · intro _
    have hpush := hring.push (by rw [h.length_eq]; exact hroom) value
    rw [h.size_eq, ← hlength]
    exact hpush
  · exact (List.length_set ..).trans h.length_eq
  · show control.bufferSize + 1 = _
    rw [h.size_eq, List.length_append, List.length_singleton]

/-- The first value is taken out of the buffer. -/
theorem popBuffered (h : Represents taskSlot control x) {value : α} {rest : List α}
    (hx : x.buffered = value :: rest) (hle : x.buffered.length ≤ x.capacity) :
    ∃ control', control.popBuffered = some (value, control') ∧
      Represents taskSlot control' { x with buffered := rest } := by
  have hpos : x.capacity ≠ 0 := by
    rw [hx, List.length_cons] at hle
    omega
  have hring := h.ring hpos
  have hlength : control.buffer.length = control.capacity := h.length_eq.trans h.capacity_eq.symm
  rw [hx] at hring
  have hread : control.buffer[control.bufferHead]? = some (some value) := by
    have hslot := hring.slot 0 value rfl
    rwa [Nat.add_zero, Nat.mod_eq_of_lt hring.head_lt] at hslot
  rw [Control.popBuffered, hread]
  refine ⟨_, rfl, { h with ring := ?_, length_eq := ?_, size_eq := ?_ }⟩
  · intro _
    have hpop := hring.pop
    rw [hlength] at hpop
    exact hpop
  · exact (List.length_set ..).trans h.length_eq
  · show control.bufferSize - 1 = _
    rw [h.size_eq, hx, List.length_cons, Nat.add_sub_cancel]

/-! ### Room -/

theorem ensureSendWaitStorage (h : Represents taskSlot control x) :
    Represents taskSlot control.ensureSendWaitStorage x ∧
      control.ensureSendWaitStorage.sendWaiters.next.length = x.taskCapacity := by
  have hqueue := h.senders.ensure h.sendRoom
  have hvalues := h.values.ensure (h.valueRoom ▸ h.sendRoom)
  have hcompletions := h.completions.ensure (h.completionRoom ▸ h.sendRoom)
  rw [← h.taskCapacity_eq] at hqueue hvalues hcompletions ⊢
  refine ⟨{ h with
    senders := hqueue.1, values := hvalues, completions := hcompletions
    sendRoom := ?_, valueRoom := ?_, completionRoom := ?_ }, hqueue.2⟩
  · exact Or.inr (hqueue.2.trans h.taskCapacity_eq)
  · exact (length_resized _ _ _).trans hqueue.2.symm
  · exact (length_resized _ _ _).trans hqueue.2.symm

theorem ensureRecvWaitStorage (h : Represents taskSlot control x) :
    Represents taskSlot control.ensureRecvWaitStorage x ∧
      control.ensureRecvWaitStorage.recvWaiters.next.length = x.taskCapacity := by
  have hqueue := h.receivers.ensure h.recvRoom
  rw [← h.taskCapacity_eq] at hqueue ⊢
  exact ⟨{ h with
    receivers := hqueue.1, recvRoom := Or.inr (hqueue.2.trans h.taskCapacity_eq) }, hqueue.2⟩

theorem ensureRendezvousStorage (h : Represents taskSlot control x) :
    Represents taskSlot control.ensureRendezvousStorage x ∧
      control.ensureRendezvousStorage.rendezvousByReceiver.length = x.taskCapacity := by
  have htable := h.rendezvous.ensure h.rendezvousRoom
  rw [← h.taskCapacity_eq] at htable ⊢
  exact ⟨{ h with
    rendezvous := htable
    rendezvousRoom := Or.inr ((length_resized _ _ _).trans h.taskCapacity_eq) },
    length_resized _ _ _⟩

/-! ### The waiters -/

theorem pushSendWaiter (h : Represents taskSlot control x) {t : Nat} (hpos : t ≠ 0)
    (hroom : taskSlot t < x.taskCapacity) (hfree : taskSlot t ∉ x.owners.map taskSlot)
    (value : α) :
    ∃ control', control.pushSendWaiter taskSlot t value = (true, control') ∧
      Represents taskSlot control' { x with parked := x.parked ++ [(t, value)] } := by
  obtain ⟨hmade, hlength⟩ := h.ensureSendWaitStorage
  have hparked : taskSlot t ∉ (x.parked.map Prod.fst).map taskSlot := by
    intro hin
    apply hfree
    rw [Contents.owners, List.map_append, List.map_append, List.map_append]
    exact List.mem_append_left _ (List.mem_append_left _ (List.mem_append_left _ hin))
  obtain ⟨waiters, hpush, hqueued, hsize⟩ :=
    hmade.senders.push hpos (hlength ▸ hroom) hparked
  rw [Control.pushSendWaiter, hpush]
  refine ⟨_, rfl, { hmade with
    senders := ?_, values := ?_, sendRoom := ?_, valueRoom := ?_, completionRoom := ?_ }⟩
  · rw [List.map_append]
    exact hqueued
  · apply hmade.values.put
    · rw [hmade.valueRoom, hlength]
      exact hroom
    · intro u y hu heq
      apply hparked
      rw [List.map_map, ← heq]
      exact List.mem_map_of_mem (f := taskSlot ∘ Prod.fst) hu
  · rw [hsize]
    exact hmade.sendRoom
  · rw [hsize, ← hmade.valueRoom]
    exact List.length_set ..
  · rw [hsize]
    exact hmade.completionRoom

/-- A task without a slot cannot wait. -/
theorem pushSendWaiter_refused (h : Represents taskSlot control x) {t : Nat}
    (hroom : ¬ taskSlot t < x.taskCapacity) (value : α) :
    ∃ control', control.pushSendWaiter taskSlot t value = (false, control') ∧
      Represents taskSlot control' x := by
  obtain ⟨hmade, hlength⟩ := h.ensureSendWaitStorage
  have hpush : control.ensureSendWaitStorage.sendWaiters.push taskSlot t = none := by
    rw [LinkedQueue.push, if_pos]
    rw [hmade.senders.sizes, hlength]
    exact Nat.le_of_not_lt hroom
  rw [Control.pushSendWaiter, hpush]
  exact ⟨_, rfl, hmade⟩

theorem pushRecvWaiter (h : Represents taskSlot control x) {t : Nat} (hpos : t ≠ 0)
    (hroom : taskSlot t < x.taskCapacity) (hfree : taskSlot t ∉ x.owners.map taskSlot) :
    ∃ control', control.pushRecvWaiter taskSlot t = (true, control') ∧
      Represents taskSlot control' { x with waiting := x.waiting ++ [t] } := by
  obtain ⟨hmade, hlength⟩ := h.ensureRecvWaitStorage
  have hwaiting : taskSlot t ∉ x.waiting.map taskSlot := by
    intro hin
    apply hfree
    rw [Contents.owners, List.map_append, List.map_append, List.map_append]
    exact List.mem_append_left _ (List.mem_append_left _ (List.mem_append_right _ hin))
  obtain ⟨waiters, hpush, hqueued, hsize⟩ :=
    hmade.receivers.push hpos (hlength ▸ hroom) hwaiting
  rw [Control.pushRecvWaiter, hpush]
  refine ⟨_, rfl, { hmade with receivers := hqueued, recvRoom := ?_ }⟩
  rw [hsize]
  exact hmade.recvRoom

theorem pushRecvWaiter_refused (h : Represents taskSlot control x) {t : Nat}
    (hroom : ¬ taskSlot t < x.taskCapacity) :
    ∃ control', control.pushRecvWaiter taskSlot t = (false, control') ∧
      Represents taskSlot control' x := by
  obtain ⟨hmade, hlength⟩ := h.ensureRecvWaitStorage
  have hpush : control.ensureRecvWaitStorage.recvWaiters.push taskSlot t = none := by
    rw [LinkedQueue.push, if_pos]
    rw [hmade.receivers.sizes, hlength]
    exact Nat.le_of_not_lt hroom
  rw [Control.pushRecvWaiter, hpush]
  exact ⟨_, rfl, hmade⟩

/-- No two senders that wait have one slot. -/
theorem vacant_parked (h : Represents taskSlot control x) {before rest : List (Nat × α)}
    {t : Nat} {value : α} (hx : x.parked = before ++ (t, value) :: rest) :
    Vacant taskSlot (before ++ rest) t := by
  have hqueue := h.senders
  rw [hx, List.map_append, List.map_cons] at hqueue
  have hapart := hqueue.slot_notMem
  intro u y hu heq
  apply hapart
  rw [← List.map_append, List.map_map, ← heq]
  exact List.mem_map_of_mem (f := taskSlot ∘ Prod.fst) hu

/-- The sender that has waited longest is taken out with its value. -/
theorem popSendWaiter (h : Represents taskSlot control x) {t : Nat} {value : α}
    {others : List (Nat × α)} (hx : x.parked = (t, value) :: others) :
    ∃ control', control.popSendWaiter taskSlot = (some ⟨t, some value⟩, control') ∧
      Represents taskSlot control' { x with parked := others } ∧
      taskSlot t < control'.sendWaiters.next.length := by
  have hqueue := h.senders
  have hvalues := h.values
  have hvacant := @vacant_parked _ _ _ _ h [] others t value hx
  rw [hx] at hqueue hvalues
  rw [List.map_cons] at hqueue
  obtain ⟨waiters, hpop, hqueued, hsize⟩ := hqueue.pop_cons
  have hread := hvalues.entryAt_eq (List.mem_cons_self ..)
  have hlt := hqueue.links.slot_lt (List.mem_cons_self ..)
  rw [Control.popSendWaiter, hpop]
  dsimp only
  rw [hread]
  refine ⟨_, rfl, { h with
    senders := hqueued
    values := @Tabled.take _ _ _ [] others t value hvalues hvacant
    sendRoom := ?_, valueRoom := ?_, completionRoom := ?_ }, ?_⟩
  · rw [hsize]
    exact h.sendRoom
  · rw [hsize, ← h.valueRoom]
    exact List.length_set ..
  · rw [hsize]
    exact h.completionRoom
  · rw [hsize]
    exact hlt

theorem popSendWaiter_none (h : Represents taskSlot control x) (hx : x.parked = []) :
    control.popSendWaiter taskSlot = (none, control) := by
  have hqueue := h.senders
  rw [hx] at hqueue
  rw [Control.popSendWaiter, hqueue.pop_nil]

/-- The receiver that has waited longest is taken out. -/
theorem popRecvWaiter (h : Represents taskSlot control x) {t : Nat} {others : List Nat}
    (hx : x.waiting = t :: others) :
    ∃ control', control.popRecvWaiter taskSlot = (some t, control') ∧
      Represents taskSlot control' { x with waiting := others } ∧
      control'.rendezvousByReceiver = control.rendezvousByReceiver ∧
      taskSlot t < x.taskCapacity := by
  have hqueue := h.receivers
  rw [hx] at hqueue
  obtain ⟨waiters, hpop, hqueued, hsize⟩ := hqueue.pop_cons
  have hlt := hqueue.links.slot_lt (List.mem_cons_self ..)
  rw [Control.popRecvWaiter, hpop]
  refine ⟨_, rfl, { h with receivers := hqueued, recvRoom := ?_ }, rfl, ?_⟩
  · rw [hsize]
    exact h.recvRoom
  · rcases h.recvRoom with hzero | hroom
    · omega
    · omega

theorem popRecvWaiter_none (h : Represents taskSlot control x) (hx : x.waiting = []) :
    control.popRecvWaiter taskSlot = (none, control) := by
  have hqueue := h.receivers
  rw [hx] at hqueue
  rw [Control.popRecvWaiter, hqueue.pop_nil]

/-! ### What is left for a task -/

theorem pushRendezvous (h : Represents taskSlot control x) {t : Nat}
    (hroom : taskSlot t < control.rendezvousByReceiver.length) (hfree : Vacant taskSlot x.held t)
    (value : α) :
    Represents taskSlot (control.pushRendezvous taskSlot t value)
      { x with held := x.held ++ [(t, value)] } := by
  refine { h with rendezvous := h.rendezvous.put hroom hfree value, rendezvousRoom := ?_ }
  rw [Control.pushRendezvous]
  dsimp only
  rw [List.length_set]
  exact h.rendezvousRoom

theorem completeParkedSend (h : Represents taskSlot control x) {t : Nat}
    (hroom : taskSlot t < control.sendWaiters.next.length)
    (hfree : Vacant taskSlot x.completed t) (valueCount : Nat) :
    Represents taskSlot (control.completeParkedSend taskSlot t valueCount)
      { x with completed := x.completed ++ [(t, valueCount)] } := by
  refine { h with
    completions := h.completions.put (h.completionRoom ▸ hroom) hfree valueCount
    completionRoom := ?_ }
  rw [Control.completeParkedSend]
  dsimp only
  rw [List.length_set]
  exact h.completionRoom

end Represents

end RunD.Channel
