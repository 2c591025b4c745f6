/-
A channel delivers what is sent.

Values are handed to receivers in the order in which they came in, every value of
a send that succeeded is in one place, and receivers wait only for values that are
not there.  The values of the sends that failed are those that no run delivers any
more: a value in the buffer or in a rendezvous slot can still be received as long
as some task is free for it.  A send can fail in an open channel, when the
scheduler does not let its task wait, so that failing with `channelClosed` is not
the same as losing the value.
-/
import RunD.ChannelRuns

namespace RunD.Channel

variable {α : Type} {taskSlot : Nat → Nat} {s s' : System α} {x : Contents (Sent α)}

/-! ### What a channel shows -/

/-- The values in the buffer, the oldest first. -/
def Control.bufferedValues (control : Control α) : List α :=
  readRing control.buffer control.bufferHead control.bufferSize

/-- The values in the rendezvous slots. -/
def Control.rendezvousValues (control : Control α) : List α :=
  control.rendezvousByReceiver.filterMap id

/-- The values that were received, are in a rendezvous slot or in the buffer. -/
def System.placed (s : System α) : List (Sent α) :=
  s.received.map Prod.snd ++ s.control.rendezvousValues ++ s.control.bufferedValues

/-- In no run that goes on from here is the value of the call received. -/
def NeverDelivered (taskSlot : Nat → Nat) (s : System α) (call : Nat) : Prop :=
  ∀ trace s', Runs taskSlot s trace s' → call ∉ (s'.received.map Prod.snd).map Sent.call

/-- The members of a queue are linked from its head on, and it counts them. -/
def Counted (taskSlot : Nat → Nat) (waiters : LinkedQueue) : Prop :=
  ∃ ids, Links taskSlot waiters.next waiters.head ids ∧ waiters.count = ids.length

/-- **What a channel promises** after a run. -/
structure Delivers (taskSlot : Nat → Nat) (s : System α) : Prop where
  /-- Values are handed over in the order in which they came in. -/
  order : (s.handed.map Prod.snd).Sublist s.entered
  /-- The value of a send that succeeded is in one place. -/
  once : ∀ call, (call, none) ∈ s.reports →
    (∃ v ∈ s.placed, v.call = call ∧ v ∈ s.entered) ∧ (s.placed.map Sent.call).count call = 1
  lost : ∀ call code, (call, some code) ∈ s.reports → NeverDelivered taskSlot s call
  /-- The value of a send that succeeded was received or can be, when a task is free for it. -/
  kept : ∀ call, (call, none) ∈ s.reports → ∀ task, s.Ready taskSlot task →
    ¬ NeverDelivered taskSlot s call
  starving : s.control.recvWaiters.count ≠ 0 →
    s.control.bufferSize = 0 ∧ s.control.sendWaiters.count = 0
  full : s.control.sendWaiters.count ≠ 0 → s.control.bufferSize = s.control.capacity
  senders : Counted taskSlot s.control.sendWaiters
  receivers : Counted taskSlot s.control.recvWaiters

/-- **What a failure tells** of the channel before the step: it is closed, with nothing left in it
for a receiver, or the task was not allowed to wait. -/
def Explained (taskSlot : Nat → Nat) (s : System α) (action : Action α) : Report α → Prop
  | Report.sendFailed _ code =>
      code = ReasonCode.channelClosed ∧ s.control.closed = true ∨
      code = ReasonCode.channelWaitCapacityExceeded ∧ (∃ task, action = Action.refusePark task) ∨
      code = ReasonCode.channelCapacityExceeded ∧
        ∃ task value, action = Action.send task value ∧ ¬ taskSlot task < s.control.taskCapacity
  | Report.recvFailed task code =>
      code = ReasonCode.channelClosed ∧
        (s.control.closed = true ∧ s.control.bufferSize = 0 ∧ s.control.sendWaiters.count = 0 ∧
          entryAt taskSlot s.control.rendezvousByReceiver task = none) ∨
      code = ReasonCode.channelWaitCapacityExceeded ∧ action = Action.refusePark task ∨
      code = ReasonCode.channelCapacityExceeded ∧ action = Action.recv task ∧
        ¬ taskSlot task < s.control.taskCapacity
  | _ => True

/-! ### The contents are what it shows -/

theorem Represents.bufferedValues_eq (h : Represents taskSlot s.control x) (hs : x.Sound taskSlot) :
    s.control.bufferedValues = x.buffered := by
  rw [Control.bufferedValues, h.size_eq]
  by_cases hzero : x.capacity = 0
  · have hnone : x.buffered = [] := by
      have hroom := hs.room
      rw [hzero] at hroom
      exact List.eq_nil_of_length_eq_zero (Nat.le_zero.mp hroom)
    rw [hnone]
    rfl
  · exact (h.ring hzero).readRing_eq

theorem Represents.rendezvousValues_perm (h : Represents taskSlot s.control x)
    (hs : x.Sound taskSlot) : s.control.rendezvousValues.Perm (x.held.map Prod.snd) := by
  have hnodup := hs.nodup_held
  rw [List.map_map] at hnodup
  exact h.rendezvous.perm hnodup

namespace Coherent

/-- The places hold what was handed over and what lies in the buffer. -/
theorem placed_perm (h : Coherent taskSlot s x) :
    s.placed.Perm (s.handed.map Prod.snd ++ x.buffered) := by
  rw [System.placed, h.represents.bufferedValues_eq h.sound]
  apply List.Perm.append_right
  have hkept := h.logged.kept.map Prod.snd
  rw [List.map_append] at hkept
  exact ((h.represents.rendezvousValues_perm h.sound).append_left _).trans hkept.symm

theorem placed_once (h : Coherent taskSlot s x) {call : Nat} (hcall : (call, none) ∈ s.reports) :
    (∃ v ∈ s.placed, v.call = call ∧ v ∈ s.entered) ∧
      (s.placed.map Sent.call).count call = 1 := by
  have hperm := h.placed_perm
  have hmem := h.logged.succeeded call hcall
  constructor
  · obtain ⟨v, hv, hvcall⟩ := List.mem_map.mp hmem
    refine ⟨v, hperm.mem_iff.mpr hv, hvcall, h.logged.order.subset ?_⟩
    exact List.mem_append_left _ hv
  · rw [(hperm.map Sent.call).count_eq]
    apply List.count_eq_one_of_mem _ hmem
    have hnodup := h.logged.alive_nodup
    rw [System.alive, List.map_append, List.nodup_append] at hnodup
    exact hnodup.1

/-! ### Lost values -/

/-- What was received was handed over. -/
theorem received_alive (h : Coherent taskSlot s x) {call : Nat}
    (hcall : call ∈ (s.received.map Prod.snd).map Sent.call) :
    call ∈ (s.alive x).map Sent.call := by
  rw [List.map_map] at hcall
  obtain ⟨e, he, rfl⟩ := List.mem_map.mp hcall
  have hhanded : e ∈ s.handed := h.logged.kept.mem_iff.mpr (List.mem_append_left _ he)
  rw [System.alive, List.append_assoc]
  exact List.mem_map_of_mem (List.mem_append_left _ (List.mem_map_of_mem hhanded))

end Coherent

/-- No report is taken back. -/
theorem System.step_reports {action : Action α} {report : Report α}
    (hstep : s.step taskSlot action = some (s', report)) : s.reports <+: s'.reports := by
  cases action with
  | send t value =>
      obtain ⟨⟨section', control⟩, -, heq⟩ := Option.map_eq_some_iff.mp hstep
      cases section' with
      | failed code =>
          cases heq
          exact List.prefix_append _ _
      | passed wakeReceiver valueCount =>
          cases heq
          exact List.prefix_append _ _
      | queued =>
          cases heq
          exact List.prefix_refl _
  | recv t =>
      obtain ⟨⟨section', control⟩, -, heq⟩ := Option.map_eq_some_iff.mp hstep
      cases section' with
      | failed code =>
          cases heq
          exact List.prefix_refl _
      | received value wakeSender wakeReceiver valueCount =>
          cases heq
          exact List.prefix_refl _
      | queued =>
          cases heq
          exact List.prefix_refl _
  | close =>
      cases hstep
      exact List.prefix_refl _
  | park t =>
      cases hstep
      exact List.prefix_refl _
  | refusePark t =>
      rw [System.step, System.refusePark] at hstep
      rcases hphase : s.phase t with - | ⟨call, parked, woken⟩ | ⟨parked, woken⟩
      · rw [hphase] at hstep
        cases hstep
      · rw [hphase] at hstep
        cases hstep
        exact List.prefix_append _ _
      · rw [hphase] at hstep
        cases hstep
        exact List.prefix_refl _
  | resume t =>
      rw [System.step, System.resume] at hstep
      rcases hphase : s.phase t with - | ⟨call, parked, woken⟩ | ⟨parked, woken⟩
      · rw [hphase] at hstep
        cases hstep
      · rw [hphase] at hstep
        rcases hsection : resumeSend taskSlot t s.control with ⟨code | valueCount, control⟩
        · rw [hsection] at hstep
          cases hstep
          exact List.prefix_append _ _
        · rw [hsection] at hstep
          cases hstep
          exact List.prefix_append _ _
      · rw [hphase] at hstep
        rcases hsection : resumeRecv taskSlot t s.control with ⟨code | ⟨value, valueCount⟩, control⟩
        · rw [hsection] at hstep
          cases hstep
          exact List.prefix_refl _
        · rw [hsection] at hstep
          cases hstep
          exact List.prefix_refl _

theorem Runs.reports {trace : List (Action α × Report α)} (hruns : Runs taskSlot s trace s') :
    s.reports <+: s'.reports := by
  induction hruns with
  | start => exact List.prefix_refl _
  | step _ _ hstep ih => exact ih.trans (System.step_reports hstep)

/-- The value of a send that failed is lost. -/
theorem Coherent.lost (h : Coherent taskSlot s x) {call : Nat} {code : ReasonCode}
    (hcall : (call, some code) ∈ s.reports) : NeverDelivered taskSlot s call := by
  intro trace s' hruns hin
  obtain ⟨y, hy⟩ := hruns.coherent h
  exact (hy.logged.failed call code (hruns.reports.subset hcall)).2.1 (hy.received_alive hin)

/-! ### Kept values -/

namespace Coherent

/-- A free task receives what lies in the buffer, one value after the other. -/
theorem receive (h : Coherent taskSlot s x) {t : Nat} (hready : s.Ready taskSlot t)
    {before after : List (Sent α)} {v : Sent α} (hx : x.buffered = before ++ v :: after) :
    ∃ trace s', Runs taskSlot s trace s' ∧ (t, v) ∈ s'.received := by
  induction before generalizing s x after with
  | nil =>
      obtain ⟨s', report, hstep, -, -, hfirst⟩ := h.recv hready
      obtain ⟨hreceived, -⟩ := hfirst v after hx
      refine ⟨_, s', Runs.single (Action.recv t) hready hstep, ?_⟩
      rw [hreceived]
      exact List.mem_append_right _ (List.mem_singleton_self _)
  | cons first before ih =>
      obtain ⟨s', report, hstep, hnext, -, hfirst⟩ := h.recv hready
      obtain ⟨-, hready', more, hmore⟩ := hfirst first (before ++ v :: after) hx
      rw [List.append_assoc, List.cons_append] at hmore
      obtain ⟨trace, s'', hruns, hreceived⟩ := ih hnext hready' hmore
      exact ⟨_, s'', (Runs.single (Action.recv t) hready hstep).trans hruns, hreceived⟩

/-- A woken receiver goes on with the value that lies ready for it. -/
theorem resume_held (h : Coherent taskSlot s x) {t : Nat} {v : Sent α}
    (hphase : s.phase t = Phase.receiving true true) (hv : (t, v) ∈ x.held) :
    ∃ trace s', Runs taskSlot s trace s' ∧ (t, v) ∈ s'.received := by
  have hadmissible : s.Admissible taskSlot (Action.resume t) := by
    rw [System.Admissible, hphase]
    exact ⟨rfl, rfl⟩
  obtain ⟨s', report, y, hstep, -, -, -, hreceived, -⟩ := h.resume hadmissible.2
  obtain ⟨w, hw, hwheld⟩ := hreceived v hv
  have hsame := List.inj_on_of_nodup_map h.sound.nodup_held.of_map hwheld hv rfl
  cases hsame
  exact ⟨_, s', Runs.single _ hadmissible hstep, hw⟩

/-- A value in a rendezvous slot can be received, after its receiver has parked. -/
theorem collect (h : Coherent taskSlot s x) {t : Nat} {v : Sent α} (hv : (t, v) ∈ x.held) :
    ∃ trace s', Runs taskSlot s trace s' ∧ (t, v) ∈ s'.received := by
  obtain ⟨parked, hphase⟩ := h.tracked.held_phase t v hv
  cases parked with
  | true => exact h.resume_held hphase hv
  | false =>
      have hadmissible : s.Admissible taskSlot (Action.park t) := by
        rw [System.Admissible, hphase]
        exact ⟨Phase.noConfusion, rfl⟩
      have hparked : Function.update s.phase t (s.phase t).park t = Phase.receiving true true := by
        rw [Function.update_self, hphase]
        rfl
      obtain ⟨trace, s', hruns, hreceived⟩ := (h.park t).resume_held hparked hv
      exact ⟨_, s', (Runs.single _ hadmissible rfl).trans hruns, hreceived⟩

/-- A value that was handed over or lies in the buffer can be received. -/
theorem deliverable (h : Coherent taskSlot s x) {call : Nat}
    (hcall : call ∈ (s.handed.map Prod.snd ++ x.buffered).map Sent.call) {t : Nat}
    (hready : s.Ready taskSlot t) : ¬ NeverDelivered taskSlot s call := by
  intro hnever
  have hlost : ∀ u v, v.call = call →
      ¬ ∃ trace s', Runs taskSlot s trace s' ∧ (u, v) ∈ s'.received := by
    rintro u v rfl ⟨trace, s', hruns, hreceived⟩
    exact hnever trace s' hruns (List.mem_map_of_mem (List.mem_map_of_mem hreceived))
  obtain ⟨v, hv, hvcall⟩ := List.mem_map.mp hcall
  rcases List.mem_append.mp hv with hhanded | hbuffered
  · obtain ⟨⟨u, _⟩, he, rfl⟩ := List.mem_map.mp hhanded
    rcases List.mem_append.mp (h.logged.kept.mem_iff.mp he) with hreceived | hheld
    · exact hlost u _ hvcall ⟨[], s, Runs.start, hreceived⟩
    · exact hlost u _ hvcall (h.collect hheld)
  · obtain ⟨before, after, hx⟩ := List.append_of_mem hbuffered
    exact hlost t v hvcall (h.receive hready hx)

/-! ### What holds after every run -/

theorem explained (h : Coherent taskSlot s x) {action : Action α} {report : Report α}
    (hwhy : Justified taskSlot x action report) : Explained taskSlot s action report := by
  cases report with
  | quiet => trivial
  | sent => trivial
  | received => trivial
  | sendFailed call code =>
      rw [Explained, h.represents.closed_eq, h.represents.taskCapacity_eq]
      exact hwhy
  | recvFailed task code =>
      rw [Explained, h.represents.closed_eq, h.represents.taskCapacity_eq, h.represents.size_eq,
        h.represents.senders.count_eq]
      refine Or.imp_left ?_ hwhy
      rintro ⟨hcode, hclosed, hbuffered, hparked, hvacant⟩
      rw [hbuffered, hparked]
      exact ⟨hcode, hclosed, rfl, rfl, h.represents.rendezvous.entryAt_vacant hvacant⟩

theorem delivers (h : Coherent taskSlot s x) : Delivers taskSlot s where
  order := by
    have horder := h.logged.order
    rw [System.alive, List.append_assoc] at horder
    exact (List.sublist_append_left _ _).trans horder
  once := fun _ hcall => h.placed_once hcall
  lost := fun _ _ hcall => h.lost hcall
  kept := fun call hcall _ hready => h.deliverable (h.logged.succeeded call hcall) hready
  starving := by
    rw [h.represents.receivers.count_eq, h.represents.size_eq, h.represents.senders.count_eq]
    intro hwaits
    obtain ⟨hbuffered, hparked⟩ := h.sound.starving fun hnone => hwaits (by rw [hnone]; rfl)
    rw [hbuffered, hparked]
    exact ⟨rfl, rfl⟩
  full := by
    rw [h.represents.senders.count_eq, h.represents.size_eq, h.represents.capacity_eq]
    exact fun hwaits => h.sound.full fun hnone => hwaits (by rw [hnone]; rfl)
  senders := ⟨_, h.represents.senders.links, h.represents.senders.count_eq.trans (by simp)⟩
  receivers := ⟨_, h.represents.receivers.links, h.represents.receivers.count_eq⟩

end Coherent

/-- **A channel delivers what is sent**, whatever its tasks do: every step that may be taken has a
result, and a failure says why. -/
theorem channel_delivers (taskSlot : Nat → Nat) (capacity taskCapacity : Nat)
    {trace : List (Action α × Report α)} {s : System α}
    (hruns : Runs taskSlot (System.start capacity taskCapacity) trace s) :
    Delivers taskSlot s ∧ ∀ action, s.Admissible taskSlot action →
      ∃ s' report, s.step taskSlot action = some (s', report) ∧
        Explained taskSlot s action report := by
  obtain ⟨x, hx⟩ := hruns.coherent (coherent_start taskSlot capacity taskCapacity)
  refine ⟨hx.delivers, fun action hadmissible => ?_⟩
  obtain ⟨s', report, y, hstep, -, hwhy⟩ := hx.step hadmissible
  exact ⟨s', report, hstep, hx.explained hwhy⟩

/-- Without a buffer, a sender parks, a receiver takes its value, and the sender goes on. -/
theorem channel_delivers_parked :
    ∃ s : System Nat,
      Runs id (System.start 0 4)
        [(Action.send 1 7, Report.quiet), (Action.park 1, Report.quiet),
          (Action.recv 2, Report.received 2 ⟨0, 7⟩ 0), (Action.resume 1, Report.sent 0 0)] s ∧
      Delivers id s := by
  have hruns : Runs id (System.start 0 4 : System Nat) [] (System.start 0 4) := Runs.start
  have hsend := hruns.next (Action.send 1 7)
    ⟨by decide, rfl, fun u hu => absurd rfl hu⟩ rfl
  have hpark := hsend.next (Action.park 1) ⟨by decide, by decide⟩ rfl
  have hrecv := hpark.next (Action.recv 2)
    ⟨by decide, by decide, by
      rintro u hu rfl
      exact hu (by decide)⟩ rfl
  have hresume := hrecv.next (Action.resume 1) ⟨by decide, by decide⟩ rfl
  exact ⟨_, hresume, (channel_delivers id 0 4 hresume).1⟩

/-- A send reports `channelClosed` exactly when its value is lost. -/
def ClosedExactly (taskSlot : Nat → Nat) (s : System α) : Prop :=
  ∀ call code, (call, code) ∈ s.reports →
    (code = some ReasonCode.channelClosed ↔ NeverDelivered taskSlot s call)

/-- The scheduler refuses a sender's wait: its value is lost, and the channel is open. -/
theorem refusedSend_lost :
    ¬ ∀ (trace : List (Action Nat × Report Nat)) (s : System Nat),
      Runs id (System.start 0 4) trace s → ClosedExactly id s := by
  intro hexactly
  have hruns : Runs id (System.start 0 4 : System Nat) [] (System.start 0 4) := Runs.start
  have hsend := hruns.next (Action.send 1 7)
    ⟨by decide, rfl, fun u hu => absurd rfl hu⟩ rfl
  have hrefuse := hsend.next (Action.refusePark 1)
    ⟨by decide, by decide, by decide⟩ rfl
  obtain ⟨x, hx⟩ := hrefuse.coherent (coherent_start id 0 4)
  have hreport : (0, some ReasonCode.channelWaitCapacityExceeded) ∈
      [((0 : Nat), some ReasonCode.channelWaitCapacityExceeded)] := List.mem_singleton_self _
  have hcode := (hexactly _ _ hrefuse 0 _ hreport).mpr (hx.lost hreport)
  cases hcode

end RunD.Channel
