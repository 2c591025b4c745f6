/-
The phases of the tasks agree with the contents of the channel.

A sender that has not been woken waits with its value, a receiver that has not
been woken waits; a woken sender has a completed send, or the channel was closed
and its value is gone; for a woken receiver a value lies ready, or the channel was
closed and there is none.  Each change of the contents is shown to keep this
together with the change of the phases that goes with it.
-/
import RunD.ChannelSystem

namespace RunD.Channel

variable {α : Type}

/-- The phases of the tasks agree with the contents, where the values of `gone` have been handed
to receivers. -/
structure Tracked (taskSlot : Nat → Nat) (phase : Nat → Phase) (x : Contents (Sent α))
    (gone : List (Sent α)) : Prop where
  parked_phase : ∀ t v, (t, v) ∈ x.parked → ∃ p, phase t = Phase.sending v.call p false
  phase_parked : ∀ t k p, phase t = Phase.sending k p false → ∃ v, v.call = k ∧ (t, v) ∈ x.parked
  waiting_phase : ∀ t, t ∈ x.waiting → ∃ p, phase t = Phase.receiving p false
  phase_waiting : ∀ t p, phase t = Phase.receiving p false → t ∈ x.waiting
  held_phase : ∀ t v, (t, v) ∈ x.held → ∃ p, phase t = Phase.receiving p true
  phase_held : ∀ t p, phase t = Phase.receiving p true →
    (∃ v, (t, v) ∈ x.held) ∨ x.closed = true ∧ x.buffered = []
  completed_phase : ∀ t n, (t, n) ∈ x.completed →
    ∃ k p, phase t = Phase.sending k p true ∧ k ∈ (gone ++ x.buffered).map Sent.call
  phase_completed : ∀ t k p, phase t = Phase.sending k p true →
    (∃ n, (t, n) ∈ x.completed) ∨ x.closed = true ∧ k ∉ (gone ++ x.buffered).map Sent.call
  apart : ∀ t u, phase t ≠ Phase.idle → phase u ≠ Phase.idle → taskSlot t = taskSlot u → t = u
  pos : ∀ t, phase t ≠ Phase.idle → t ≠ 0

theorem tracked_start (taskSlot : Nat → Nat) (capacity taskCapacity : Nat) :
    Tracked taskSlot (fun _ => Phase.idle) ({ capacity, taskCapacity } : Contents (Sent α)) [] where
  parked_phase := fun _ _ h => absurd h List.not_mem_nil
  phase_parked := fun _ _ _ h => Phase.noConfusion h
  waiting_phase := fun _ h => absurd h List.not_mem_nil
  phase_waiting := fun _ _ h => Phase.noConfusion h
  held_phase := fun _ _ h => absurd h List.not_mem_nil
  phase_held := fun _ _ h => Phase.noConfusion h
  completed_phase := fun _ _ h => absurd h List.not_mem_nil
  phase_completed := fun _ _ _ h => Phase.noConfusion h
  apart := fun _ _ h => absurd rfl h
  pos := fun _ h => absurd rfl h

/-! ### Entries of other tasks -/

section Others

variable {β : Type} {entries : List (Nat × β)} {t : Nat}

theorem mem_others (u : Nat) (y : β) :
    (u, y) ∈ entries.filter (·.1 != t) ↔ (u, y) ∈ entries ∧ u ≠ t := by
  rw [List.mem_filter, bne_iff_ne]

/-- Where a task has no entry, all entries are of other tasks. -/
theorem mem_untouched (ht : ∀ y, (t, y) ∉ entries) (u : Nat) (y : β) :
    (u, y) ∈ entries ↔ (u, y) ∈ entries ∧ u ≠ t := by
  constructor
  · intro hmem
    refine ⟨hmem, ?_⟩
    rintro rfl
    exact ht y hmem
  · exact And.left

end Others

/-! ### Waking -/

section Wake

variable {phase : Nat → Phase} {tasks : List Nat} {t : Nat}

theorem wakeAll_nil (phase : Nat → Phase) : wakeAll phase [] = phase := by
  funext t
  rw [wakeAll, if_neg List.not_mem_nil]

theorem wakeAll_of_mem (ht : t ∈ tasks) : wakeAll phase tasks t = (phase t).wake := if_pos ht

theorem wakeAll_of_notMem (ht : t ∉ tasks) : wakeAll phase tasks t = phase t := if_neg ht

theorem wakeAll_sending {k : Nat} {p w : Bool} (h : wakeAll phase tasks t = Phase.sending k p w) :
    ∃ w', phase t = Phase.sending k p w' := by
  rw [wakeAll] at h
  split at h
  · cases hphase : phase t with
    | idle =>
        rw [hphase] at h
        cases h
    | sending =>
        rw [hphase] at h
        cases h
        exact ⟨_, rfl⟩
    | receiving =>
        rw [hphase] at h
        cases h
  · exact ⟨w, h⟩

theorem wakeAll_idle_iff : wakeAll phase tasks t = Phase.idle ↔ phase t = Phase.idle := by
  rw [wakeAll]
  split
  · cases phase t with
    | idle => exact Iff.rfl
    | sending => exact ⟨fun h => Phase.noConfusion h, fun h => Phase.noConfusion h⟩
    | receiving => exact ⟨fun h => Phase.noConfusion h, fun h => Phase.noConfusion h⟩
  · exact Iff.rfl

end Wake

namespace Tracked

variable {taskSlot : Nat → Nat} {phase : Nat → Phase} {x : Contents (Sent α)}
variable {gone : List (Sent α)} {t : Nat}

/-! ### Who the channel knows -/

/-- The channel knows only tasks that are in an operation. -/
theorem owner_busy (h : Tracked taskSlot phase x gone) {u : Nat} (hu : u ∈ x.owners) :
    phase u ≠ Phase.idle := by
  rw [Contents.owners, List.mem_append, List.mem_append, List.mem_append] at hu
  rcases hu with ((hparked | hwaiting) | hheld) | hcompleted
  · obtain ⟨⟨_, v⟩, hv, rfl⟩ := List.mem_map.mp hparked
    obtain ⟨p, hp⟩ := h.parked_phase _ v hv
    exact hp ▸ Phase.noConfusion
  · obtain ⟨p, hp⟩ := h.waiting_phase u hwaiting
    exact hp ▸ Phase.noConfusion
  · obtain ⟨⟨_, v⟩, hv, rfl⟩ := List.mem_map.mp hheld
    obtain ⟨p, hp⟩ := h.held_phase _ v hv
    exact hp ▸ Phase.noConfusion
  · obtain ⟨⟨_, n⟩, hn, rfl⟩ := List.mem_map.mp hcompleted
    obtain ⟨k, p, hp, -⟩ := h.completed_phase _ n hn
    exact hp ▸ Phase.noConfusion

/-- A task that may start an operation is a stranger to the channel. -/
theorem stranger (h : Tracked taskSlot phase x gone)
    (hfree : ∀ u, phase u ≠ Phase.idle → taskSlot u ≠ taskSlot t) : x.Stranger taskSlot t := by
  intro hin
  obtain ⟨u, hu, heq⟩ := List.mem_map.mp hin
  exact hfree u (h.owner_busy hu) heq

theorem alone_held (h : Tracked taskSlot phase x gone) (ht : phase t ≠ Phase.idle) :
    Alone taskSlot x.held t := by
  intro u v hv heq
  obtain ⟨p, hp⟩ := h.held_phase u v hv
  exact h.apart u t (hp ▸ Phase.noConfusion) ht heq

theorem alone_completed (h : Tracked taskSlot phase x gone) (ht : phase t ≠ Phase.idle) :
    Alone taskSlot x.completed t := by
  intro u n hn heq
  obtain ⟨k, p, hp, -⟩ := h.completed_phase u n hn
  exact h.apart u t (hp ▸ Phase.noConfusion) ht heq

/-- A sender has no entry as a receiver. -/
theorem sender_only (h : Tracked taskSlot phase x gone) {k : Nat} {p w : Bool}
    (ht : phase t = Phase.sending k p w) : t ∉ x.waiting ∧ ∀ v, (t, v) ∉ x.held := by
  constructor
  · intro hin
    obtain ⟨q, hq⟩ := h.waiting_phase t hin
    rw [ht] at hq
    cases hq
  · intro v hv
    obtain ⟨q, hq⟩ := h.held_phase t v hv
    rw [ht] at hq
    cases hq

/-- A receiver has no entry as a sender. -/
theorem receiver_only (h : Tracked taskSlot phase x gone) {p w : Bool}
    (ht : phase t = Phase.receiving p w) :
    (∀ v, (t, v) ∉ x.parked) ∧ ∀ n, (t, n) ∉ x.completed := by
  constructor
  · intro v hv
    obtain ⟨q, hq⟩ := h.parked_phase t v hv
    rw [ht] at hq
    cases hq
  · intro n hn
    obtain ⟨k, q, hq, -⟩ := h.completed_phase t n hn
    rw [ht] at hq
    cases hq

/-- A sender that was not woken has no completed send, and one that was does not wait. -/
theorem unwoken_sender (h : Tracked taskSlot phase x gone) {k : Nat} {p : Bool}
    (ht : phase t = Phase.sending k p false) (n : Nat) : (t, n) ∉ x.completed := by
  intro hn
  obtain ⟨k', q, hq, -⟩ := h.completed_phase t n hn
  rw [ht] at hq
  cases hq

theorem woken_sender (h : Tracked taskSlot phase x gone) {k : Nat} {p : Bool}
    (ht : phase t = Phase.sending k p true) (v : Sent α) : (t, v) ∉ x.parked := by
  intro hv
  obtain ⟨q, hq⟩ := h.parked_phase t v hv
  rw [ht] at hq
  cases hq

/-- A receiver that was not woken has nothing lying ready, and one that was does not wait. -/
theorem unwoken_receiver (h : Tracked taskSlot phase x gone) {p : Bool}
    (ht : phase t = Phase.receiving p false) (v : Sent α) : (t, v) ∉ x.held := by
  intro hv
  obtain ⟨q, hq⟩ := h.held_phase t v hv
  rw [ht] at hq
  cases hq

theorem woken_receiver (h : Tracked taskSlot phase x gone) {p : Bool}
    (ht : phase t = Phase.receiving p true) : t ∉ x.waiting := by
  intro hin
  obtain ⟨q, hq⟩ := h.waiting_phase t hin
  rw [ht] at hq
  cases hq

/-! ### The beginning of an operation -/

/-- No two tasks that are in an operation share a slot, also after one more has started. -/
theorem apart_update (h : Tracked taskSlot phase x gone)
    (hfree : ∀ u, phase u ≠ Phase.idle → taskSlot u ≠ taskSlot t) (ph : Phase) :
    ∀ a b, Function.update phase t ph a ≠ Phase.idle → Function.update phase t ph b ≠ Phase.idle →
      taskSlot a = taskSlot b → a = b := by
  intro a b ha hb heq
  by_cases hat : a = t
  · by_cases hbt : b = t
    · rw [hat, hbt]
    · rw [Function.update_of_ne hbt] at hb
      exact absurd (hat ▸ heq.symm) (hfree b hb)
  · rw [Function.update_of_ne hat] at ha
    by_cases hbt : b = t
    · exact absurd (hbt ▸ heq) (hfree a ha)
    · rw [Function.update_of_ne hbt] at hb
      exact h.apart a b ha hb heq

theorem pos_update (h : Tracked taskSlot phase x gone) (hpos : t ≠ 0) (ph : Phase) :
    ∀ a, Function.update phase t ph a ≠ Phase.idle → a ≠ 0 := by
  intro a ha
  by_cases hat : a = t
  · exact hat ▸ hpos
  · rw [Function.update_of_ne hat] at ha
    exact h.pos a ha

/-- Other tasks keep their phases. -/
theorem update_other {u : Nat} {ph : Phase} (hidle : phase t = Phase.idle)
    (hu : phase u ≠ Phase.idle) : Function.update phase t ph u = phase u := by
  apply Function.update_of_ne
  rintro rfl
  exact hu hidle

/-- A sender starts to wait. -/
theorem beginSend (h : Tracked taskSlot phase x gone) (hpos : t ≠ 0)
    (hidle : phase t = Phase.idle)
    (hfree : ∀ u, phase u ≠ Phase.idle → taskSlot u ≠ taskSlot t) (v : Sent α) :
    Tracked taskSlot (Function.update phase t (Phase.sending v.call false false))
      { x with parked := x.parked ++ [(t, v)] } gone where
  parked_phase := by
    intro u w hw
    rcases List.mem_append.mp hw with hold | hnew
    · obtain ⟨p, hp⟩ := h.parked_phase u w hold
      exact ⟨p, (update_other hidle (hp ▸ Phase.noConfusion)).trans hp⟩
    · cases List.mem_singleton.mp hnew
      exact ⟨false, Function.update_self ..⟩
  phase_parked := by
    intro u k p hp
    by_cases hut : u = t
    · subst hut
      rw [Function.update_self] at hp
      cases hp
      exact ⟨v, rfl, List.mem_append_right _ (List.mem_singleton_self _)⟩
    · rw [Function.update_of_ne hut] at hp
      obtain ⟨w, hw, hmem⟩ := h.phase_parked u k p hp
      exact ⟨w, hw, List.mem_append_left _ hmem⟩
  waiting_phase := by
    intro u hu
    obtain ⟨p, hp⟩ := h.waiting_phase u hu
    exact ⟨p, (update_other hidle (hp ▸ Phase.noConfusion)).trans hp⟩
  phase_waiting := by
    intro u p hp
    by_cases hut : u = t
    · subst hut
      rw [Function.update_self] at hp
      cases hp
    · rw [Function.update_of_ne hut] at hp
      exact h.phase_waiting u p hp
  held_phase := by
    intro u w hw
    obtain ⟨p, hp⟩ := h.held_phase u w hw
    exact ⟨p, (update_other hidle (hp ▸ Phase.noConfusion)).trans hp⟩
  phase_held := by
    intro u p hp
    by_cases hut : u = t
    · subst hut
      rw [Function.update_self] at hp
      cases hp
    · rw [Function.update_of_ne hut] at hp
      exact h.phase_held u p hp
  completed_phase := by
    intro u n hn
    obtain ⟨k, p, hp, hk⟩ := h.completed_phase u n hn
    exact ⟨k, p, (update_other hidle (hp ▸ Phase.noConfusion)).trans hp, hk⟩
  phase_completed := by
    intro u k p hp
    by_cases hut : u = t
    · subst hut
      rw [Function.update_self] at hp
      cases hp
    · rw [Function.update_of_ne hut] at hp
      exact h.phase_completed u k p hp
  apart := h.apart_update hfree _
  pos := h.pos_update hpos _

/-- A receiver starts to wait. -/
theorem beginRecv (h : Tracked taskSlot phase x gone) (hpos : t ≠ 0)
    (hidle : phase t = Phase.idle)
    (hfree : ∀ u, phase u ≠ Phase.idle → taskSlot u ≠ taskSlot t) :
    Tracked taskSlot (Function.update phase t (Phase.receiving false false))
      { x with waiting := x.waiting ++ [t] } gone where
  parked_phase := by
    intro u w hw
    obtain ⟨p, hp⟩ := h.parked_phase u w hw
    exact ⟨p, (update_other hidle (hp ▸ Phase.noConfusion)).trans hp⟩
  phase_parked := by
    intro u k p hp
    by_cases hut : u = t
    · subst hut
      rw [Function.update_self] at hp
      cases hp
    · rw [Function.update_of_ne hut] at hp
      exact h.phase_parked u k p hp
  waiting_phase := by
    intro u hu
    rcases List.mem_append.mp hu with hold | hnew
    · obtain ⟨p, hp⟩ := h.waiting_phase u hold
      exact ⟨p, (update_other hidle (hp ▸ Phase.noConfusion)).trans hp⟩
    · cases List.mem_singleton.mp hnew
      exact ⟨false, Function.update_self ..⟩
  phase_waiting := by
    intro u p hp
    by_cases hut : u = t
    · subst hut
      exact List.mem_append_right _ (List.mem_singleton_self _)
    · rw [Function.update_of_ne hut] at hp
      exact List.mem_append_left _ (h.phase_waiting u p hp)
  held_phase := by
    intro u w hw
    obtain ⟨p, hp⟩ := h.held_phase u w hw
    exact ⟨p, (update_other hidle (hp ▸ Phase.noConfusion)).trans hp⟩
  phase_held := by
    intro u p hp
    by_cases hut : u = t
    · subst hut
      rw [Function.update_self] at hp
      cases hp
    · rw [Function.update_of_ne hut] at hp
      exact h.phase_held u p hp
  completed_phase := by
    intro u n hn
    obtain ⟨k, p, hp, hk⟩ := h.completed_phase u n hn
    exact ⟨k, p, (update_other hidle (hp ▸ Phase.noConfusion)).trans hp, hk⟩
  phase_completed := by
    intro u k p hp
    by_cases hut : u = t
    · subst hut
      rw [Function.update_self] at hp
      cases hp
    · rw [Function.update_of_ne hut] at hp
      exact h.phase_completed u k p hp
  apart := h.apart_update hfree _
  pos := h.pos_update hpos _

/-! ### Values move -/

/-- Values come into the buffer of an open channel, or leave it for a receiver. -/
theorem move (h : Tracked taskSlot phase x gone) (buffered gone' : List (Sent α))
    (hsettled : x.closed = true → x.buffered = [] → buffered = [])
    (hkeep : ∀ k, k ∈ (gone ++ x.buffered).map Sent.call → k ∈ (gone' ++ buffered).map Sent.call)
    (hnew : x.closed = true →
      ∀ k, k ∈ (gone' ++ buffered).map Sent.call → k ∈ (gone ++ x.buffered).map Sent.call) :
    Tracked taskSlot phase { x with buffered } gone' :=
  { h with
    phase_held := by
      intro u p hp
      rcases h.phase_held u p hp with hheld | ⟨hclosed, hempty⟩
      · exact Or.inl hheld
      · exact Or.inr ⟨hclosed, hsettled hclosed hempty⟩
    completed_phase := by
      intro u n hn
      obtain ⟨k, p, hp, hk⟩ := h.completed_phase u n hn
      exact ⟨k, p, hp, hkeep k hk⟩
    phase_completed := by
      intro u k p hp
      rcases h.phase_completed u k p hp with hdone | ⟨hclosed, hk⟩
      · exact Or.inl hdone
      · exact Or.inr ⟨hclosed, fun hin => hk (hnew hclosed k hin)⟩ }

/-- The receiver that has waited longest is given a value. -/
theorem pass (h : Tracked taskSlot phase x gone) {receiver : Nat} {others : List Nat}
    (hx : x.waiting = receiver :: others) (hnodup : x.waiting.Nodup) (hopen : ¬ x.closed = true)
    (v : Sent α) :
    Tracked taskSlot (wakeAll phase [receiver])
      { x with waiting := others, held := x.held ++ [(receiver, v)] } (gone ++ [v]) := by
  rw [hx, List.nodup_cons] at hnodup
  obtain ⟨q, hq⟩ := h.waiting_phase receiver (hx ▸ List.mem_cons_self ..)
  have hself : wakeAll phase [receiver] receiver = Phase.receiving q true := by
    rw [wakeAll_of_mem (List.mem_singleton_self _), hq]
    rfl
  have hother : ∀ {u}, u ≠ receiver → wakeAll phase [receiver] u = phase u :=
    fun hu => wakeAll_of_notMem fun hin => hu (List.mem_singleton.mp hin)
  have hgrown : ∀ k, k ∈ (gone ++ x.buffered).map Sent.call →
      k ∈ (gone ++ [v] ++ x.buffered).map Sent.call := by
    intro k hk
    rw [List.map_append, List.mem_append] at hk
    rw [List.map_append, List.map_append, List.mem_append, List.mem_append]
    exact hk.imp_left Or.inl
  exact
    { parked_phase := by
        intro u w hw
        obtain ⟨p, hp⟩ := h.parked_phase u w hw
        refine ⟨p, (hother ?_).trans hp⟩
        rintro rfl
        rw [hq] at hp
        cases hp
      phase_parked := by
        intro u k p hp
        by_cases hu : u = receiver
        · rw [hu, hself] at hp
          cases hp
        · rw [hother hu] at hp
          exact h.phase_parked u k p hp
      waiting_phase := by
        intro u hu
        obtain ⟨p, hp⟩ := h.waiting_phase u (hx ▸ List.mem_cons_of_mem _ hu)
        refine ⟨p, (hother ?_).trans hp⟩
        rintro rfl
        exact hnodup.1 hu
      phase_waiting := by
        intro u p hp
        by_cases hu : u = receiver
        · rw [hu, hself] at hp
          cases hp
        · rw [hother hu] at hp
          have hmem := h.phase_waiting u p hp
          rw [hx, List.mem_cons] at hmem
          exact hmem.resolve_left hu
      held_phase := by
        intro u w hw
        rcases List.mem_append.mp hw with hold | hnew
        · obtain ⟨p, hp⟩ := h.held_phase u w hold
          refine ⟨p, (hother ?_).trans hp⟩
          rintro rfl
          rw [hq] at hp
          cases hp
        · cases List.mem_singleton.mp hnew
          exact ⟨q, hself⟩
      phase_held := by
        intro u p hp
        by_cases hu : u = receiver
        · subst hu
          exact Or.inl ⟨v, List.mem_append_right _ (List.mem_singleton_self _)⟩
        · rw [hother hu] at hp
          rcases h.phase_held u p hp with ⟨w, hw⟩ | ⟨hclosed, -⟩
          · exact Or.inl ⟨w, List.mem_append_left _ hw⟩
          · exact absurd hclosed hopen
      completed_phase := by
        intro u n hn
        obtain ⟨k, p, hp, hk⟩ := h.completed_phase u n hn
        refine ⟨k, p, (hother ?_).trans hp, hgrown k hk⟩
        rintro rfl
        rw [hq] at hp
        cases hp
      phase_completed := by
        intro u k p hp
        by_cases hu : u = receiver
        · rw [hu, hself] at hp
          cases hp
        · rw [hother hu] at hp
          rcases h.phase_completed u k p hp with hdone | ⟨hclosed, -⟩
          · exact Or.inl hdone
          · exact absurd hclosed hopen
      apart := fun a b ha hb =>
        h.apart a b (mt wakeAll_idle_iff.mpr ha) (mt wakeAll_idle_iff.mpr hb)
      pos := fun a ha => h.pos a (mt wakeAll_idle_iff.mpr ha) }

/-- The value of the sender that has waited longest is taken, and the sender's send is
completed. -/
theorem complete (h : Tracked taskSlot phase x gone) {sender : Nat} {v : Sent α}
    {others : List (Nat × Sent α)} (hx : x.parked = (sender, v) :: others)
    (hnodup : (x.parked.map Prod.fst).Nodup) (hopen : ¬ x.closed = true)
    (buffered gone' : List (Sent α))
    (hkeep : ∀ k, k ∈ (gone ++ x.buffered).map Sent.call → k ∈ (gone' ++ buffered).map Sent.call)
    (hv : v.call ∈ (gone' ++ buffered).map Sent.call) (n : Nat) :
    Tracked taskSlot (wakeAll phase [sender])
      { x with
        buffered
        parked := others
        completed := x.completed ++ [(sender, n)] } gone' := by
  rw [hx, List.map_cons, List.nodup_cons] at hnodup
  obtain ⟨q, hq⟩ := h.parked_phase sender v (hx ▸ List.mem_cons_self ..)
  have hself : wakeAll phase [sender] sender = Phase.sending v.call q true := by
    rw [wakeAll_of_mem (List.mem_singleton_self _), hq]
    rfl
  have hother : ∀ {u}, u ≠ sender → wakeAll phase [sender] u = phase u :=
    fun hu => wakeAll_of_notMem fun hin => hu (List.mem_singleton.mp hin)
  exact
    { parked_phase := by
        intro u w hw
        obtain ⟨p, hp⟩ := h.parked_phase u w (hx ▸ List.mem_cons_of_mem _ hw)
        refine ⟨p, (hother ?_).trans hp⟩
        rintro rfl
        exact hnodup.1 (List.mem_map.mpr ⟨(u, w), hw, rfl⟩)
      phase_parked := by
        intro u k p hp
        by_cases hu : u = sender
        · rw [hu, hself] at hp
          cases hp
        · rw [hother hu] at hp
          obtain ⟨w, hw, hmem⟩ := h.phase_parked u k p hp
          rw [hx, List.mem_cons] at hmem
          refine ⟨w, hw, hmem.resolve_left ?_⟩
          rintro heq
          cases heq
          exact hu rfl
      waiting_phase := by
        intro u hu
        obtain ⟨p, hp⟩ := h.waiting_phase u hu
        refine ⟨p, (hother ?_).trans hp⟩
        rintro rfl
        rw [hq] at hp
        cases hp
      phase_waiting := by
        intro u p hp
        by_cases hu : u = sender
        · rw [hu, hself] at hp
          cases hp
        · rw [hother hu] at hp
          exact h.phase_waiting u p hp
      held_phase := by
        intro u w hw
        obtain ⟨p, hp⟩ := h.held_phase u w hw
        refine ⟨p, (hother ?_).trans hp⟩
        rintro rfl
        rw [hq] at hp
        cases hp
      phase_held := by
        intro u p hp
        by_cases hu : u = sender
        · rw [hu, hself] at hp
          cases hp
        · rw [hother hu] at hp
          rcases h.phase_held u p hp with hheld | ⟨hclosed, -⟩
          · exact Or.inl hheld
          · exact absurd hclosed hopen
      completed_phase := by
        intro u m hm
        rcases List.mem_append.mp hm with hold | hnew
        · obtain ⟨k, p, hp, hk⟩ := h.completed_phase u m hold
          refine ⟨k, p, (hother ?_).trans hp, hkeep k hk⟩
          rintro rfl
          rw [hq] at hp
          cases hp
        · cases List.mem_singleton.mp hnew
          exact ⟨v.call, q, hself, hv⟩
      phase_completed := by
        intro u k p hp
        by_cases hu : u = sender
        · subst hu
          exact Or.inl ⟨n, List.mem_append_right _ (List.mem_singleton_self _)⟩
        · rw [hother hu] at hp
          rcases h.phase_completed u k p hp with ⟨m, hm⟩ | ⟨hclosed, -⟩
          · exact Or.inl ⟨m, List.mem_append_left _ hm⟩
          · exact absurd hclosed hopen
      apart := fun a b ha hb =>
        h.apart a b (mt wakeAll_idle_iff.mpr ha) (mt wakeAll_idle_iff.mpr hb)
      pos := fun a ha => h.pos a (mt wakeAll_idle_iff.mpr ha) }

/-- The channel is closed: nobody waits any longer. -/
theorem close (h : Tracked taskSlot phase x gone)
    (hstarving : x.waiting ≠ [] → x.buffered = [])
    (hlost : ∀ t v, (t, v) ∈ x.parked → v.call ∉ (gone ++ x.buffered).map Sent.call) :
    Tracked taskSlot (wakeAll phase x.close.1) x.close.2 gone := by
  have hawake : ∀ u p k, wakeAll phase x.close.1 u ≠ Phase.sending k p false ∧
      wakeAll phase x.close.1 u ≠ Phase.receiving p false := by
    intro u p k
    by_cases hu : u ∈ x.close.1
    · rw [wakeAll_of_mem hu]
      cases phase u with
      | idle => exact ⟨Phase.noConfusion, Phase.noConfusion⟩
      | sending =>
          refine ⟨fun heq => ?_, Phase.noConfusion⟩
          rw [Phase.wake, Phase.sending.injEq] at heq
          exact Bool.noConfusion heq.2.2
      | receiving =>
          refine ⟨Phase.noConfusion, fun heq => ?_⟩
          rw [Phase.wake, Phase.receiving.injEq] at heq
          exact Bool.noConfusion heq.2
    · rw [wakeAll_of_notMem hu]
      refine ⟨fun heq => hu ?_, fun heq => hu ?_⟩
      · obtain ⟨v, -, hv⟩ := h.phase_parked u k p heq
        exact List.mem_append_left _ (List.mem_map_of_mem (f := Prod.fst) hv)
      · exact List.mem_append_right _ (h.phase_waiting u p heq)
  have hother : ∀ {u}, (∀ v, (u, v) ∉ x.parked) → u ∉ x.waiting →
      wakeAll phase x.close.1 u = phase u := by
    intro u hparked hwaiting
    apply wakeAll_of_notMem
    intro hin
    rcases List.mem_append.mp hin with hleft | hright
    · obtain ⟨⟨_, v⟩, hv, rfl⟩ := List.mem_map.mp hleft
      exact hparked v hv
    · exact hwaiting hright
  exact
    { parked_phase := fun _ _ hv => absurd hv List.not_mem_nil
      phase_parked := fun u k p hp => absurd hp (hawake u p k).1
      waiting_phase := fun _ hu => absurd hu List.not_mem_nil
      phase_waiting := fun u p hp => absurd hp (hawake u p 0).2
      held_phase := by
        intro u w hw
        obtain ⟨p, hp⟩ := h.held_phase u w hw
        refine ⟨p, (hother ?_ ?_).trans hp⟩
        · intro v hv
          obtain ⟨q, hq⟩ := h.parked_phase u v hv
          rw [hp] at hq
          cases hq
        · intro hu
          obtain ⟨q, hq⟩ := h.waiting_phase u hu
          rw [hp] at hq
          cases hq
      phase_held := by
        intro u p hp
        by_cases hwaiting : u ∈ x.waiting
        · exact Or.inr ⟨rfl, hstarving (List.ne_nil_of_mem hwaiting)⟩
        · have hold : phase u = Phase.receiving p true := by
            rw [← hp, hother ?_ hwaiting]
            intro v hv
            obtain ⟨q, hq⟩ := h.parked_phase u v hv
            have hin : u ∈ x.close.1 :=
              List.mem_append_left _ (List.mem_map_of_mem (f := Prod.fst) hv)
            rw [wakeAll_of_mem hin, hq] at hp
            cases hp
          rcases h.phase_held u p hold with hheld | ⟨-, hempty⟩
          · exact Or.inl hheld
          · exact Or.inr ⟨rfl, hempty⟩
      completed_phase := by
        intro u n hn
        obtain ⟨k, p, hp, hk⟩ := h.completed_phase u n hn
        refine ⟨k, p, (hother ?_ ?_).trans hp, hk⟩
        · intro v hv
          obtain ⟨q, hq⟩ := h.parked_phase u v hv
          rw [hp] at hq
          cases hq
        · intro hu
          obtain ⟨q, hq⟩ := h.waiting_phase u hu
          rw [hp] at hq
          cases hq
      phase_completed := by
        intro u k p hp
        by_cases hparked : ∃ v, (u, v) ∈ x.parked
        · -- the sender was waiting: its value is lost
          obtain ⟨v, hv⟩ := hparked
          obtain ⟨q, hq⟩ := h.parked_phase u v hv
          have hin : u ∈ x.close.1 :=
            List.mem_append_left _ (List.mem_map_of_mem (f := Prod.fst) hv)
          rw [wakeAll_of_mem hin, hq] at hp
          cases hp
          exact Or.inr ⟨rfl, hlost u v hv⟩
        · have hold : phase u = Phase.sending k p true := by
            rw [← hp, hother (fun v hv => hparked ⟨v, hv⟩) ?_]
            intro hu
            obtain ⟨q, hq⟩ := h.waiting_phase u hu
            have hin : u ∈ x.close.1 := List.mem_append_right _ hu
            rw [wakeAll_of_mem hin, hq] at hp
            cases hp
          rcases h.phase_completed u k p hold with hdone | ⟨-, hk⟩
          · exact Or.inl hdone
          · exact Or.inr ⟨rfl, hk⟩
      apart := fun a b ha hb =>
        h.apart a b (mt wakeAll_idle_iff.mpr ha) (mt wakeAll_idle_iff.mpr hb)
      pos := fun a ha => h.pos a (mt wakeAll_idle_iff.mpr ha) }

/-! ### Parking and the end of an operation -/

/-- Parking a task changes nothing that the channel knows. -/
theorem park (h : Tracked taskSlot phase x gone) (t : Nat) :
    Tracked taskSlot (Function.update phase t (phase t).park) x gone := by
  -- the phases are the same up to where the task stands
  have hsend : ∀ u k w, (∃ p, Function.update phase t (phase t).park u = Phase.sending k p w) ↔
      ∃ p, phase u = Phase.sending k p w := by
    intro u k w
    by_cases hu : u = t
    · subst hu
      rw [Function.update_self]
      cases phase u with
      | idle => exact Iff.rfl
      | sending => simp [Phase.park]
      | receiving => simp [Phase.park]
    · rw [Function.update_of_ne hu]
  have hrecv : ∀ u w, (∃ p, Function.update phase t (phase t).park u = Phase.receiving p w) ↔
      ∃ p, phase u = Phase.receiving p w := by
    intro u w
    by_cases hu : u = t
    · subst hu
      rw [Function.update_self]
      cases phase u with
      | idle => exact Iff.rfl
      | sending => simp [Phase.park]
      | receiving => simp [Phase.park]
    · rw [Function.update_of_ne hu]
  have hidle : ∀ u, Function.update phase t (phase t).park u = Phase.idle → phase u = Phase.idle := by
    intro u hu
    by_cases hut : u = t
    · subst hut
      rw [Function.update_self] at hu
      cases hphase : phase u with
      | idle => rfl
      | sending =>
          rw [hphase] at hu
          cases hu
      | receiving =>
          rw [hphase] at hu
          cases hu
    · rwa [Function.update_of_ne hut] at hu
  have hbusy : ∀ u, Function.update phase t (phase t).park u ≠ Phase.idle → phase u ≠ Phase.idle := by
    intro u hu hphase
    apply hu
    by_cases hut : u = t
    · subst hut
      rw [Function.update_self, hphase]
      rfl
    · rw [Function.update_of_ne hut, hphase]
  exact
    { parked_phase := fun u v hv => (hsend u v.call false).mpr (h.parked_phase u v hv)
      phase_parked := by
        intro u k p hp
        obtain ⟨q, hq⟩ := (hsend u k false).mp ⟨p, hp⟩
        exact h.phase_parked u k q hq
      waiting_phase := fun u hu => (hrecv u false).mpr (h.waiting_phase u hu)
      phase_waiting := by
        intro u p hp
        obtain ⟨q, hq⟩ := (hrecv u false).mp ⟨p, hp⟩
        exact h.phase_waiting u q hq
      held_phase := fun u v hv => (hrecv u true).mpr (h.held_phase u v hv)
      phase_held := by
        intro u p hp
        obtain ⟨q, hq⟩ := (hrecv u true).mp ⟨p, hp⟩
        exact h.phase_held u q hq
      completed_phase := by
        intro u n hn
        obtain ⟨k, p, hp, hk⟩ := h.completed_phase u n hn
        obtain ⟨q, hq⟩ := (hsend u k true).mpr ⟨p, hp⟩
        exact ⟨k, q, hq, hk⟩
      phase_completed := by
        intro u k p hp
        obtain ⟨q, hq⟩ := (hsend u k true).mp ⟨p, hp⟩
        exact h.phase_completed u k q hq
      apart := fun a b ha hb => h.apart a b (hbusy a ha) (hbusy b hb)
      pos := fun a ha => h.pos a (hbusy a ha) }

/-- A task ends its operation, and the channel forgets what it had of it. -/
theorem finish (h : Tracked taskSlot phase x gone) {y : Contents (Sent α)}
    (hclosed : y.closed = x.closed) (hbuffered : y.buffered = x.buffered)
    (hparked : ∀ u v, (u, v) ∈ y.parked ↔ (u, v) ∈ x.parked ∧ u ≠ t)
    (hwaiting : ∀ u, u ∈ y.waiting ↔ u ∈ x.waiting ∧ u ≠ t)
    (hheld : ∀ u v, (u, v) ∈ y.held ↔ (u, v) ∈ x.held ∧ u ≠ t)
    (hcompleted : ∀ u n, (u, n) ∈ y.completed ↔ (u, n) ∈ x.completed ∧ u ≠ t) :
    Tracked taskSlot (Function.update phase t Phase.idle) y gone := by
  have hbusy : ∀ {u ph}, Function.update phase t Phase.idle u = ph → ph ≠ Phase.idle →
      u ≠ t ∧ phase u = ph := by
    intro u ph hu hph
    by_cases hut : u = t
    · subst hut
      rw [Function.update_self] at hu
      exact absurd hu.symm hph
    · rw [Function.update_of_ne hut] at hu
      exact ⟨hut, hu⟩
  exact
    { parked_phase := by
        intro u v hv
        obtain ⟨hmem, hu⟩ := (hparked u v).mp hv
        obtain ⟨p, hp⟩ := h.parked_phase u v hmem
        exact ⟨p, (Function.update_of_ne hu ..).trans hp⟩
      phase_parked := by
        intro u k p hp
        obtain ⟨hu, hold⟩ := hbusy hp Phase.noConfusion
        obtain ⟨v, hv, hmem⟩ := h.phase_parked u k p hold
        exact ⟨v, hv, (hparked u v).mpr ⟨hmem, hu⟩⟩
      waiting_phase := by
        intro u hu
        obtain ⟨hmem, hne⟩ := (hwaiting u).mp hu
        obtain ⟨p, hp⟩ := h.waiting_phase u hmem
        exact ⟨p, (Function.update_of_ne hne ..).trans hp⟩
      phase_waiting := by
        intro u p hp
        obtain ⟨hu, hold⟩ := hbusy hp Phase.noConfusion
        exact (hwaiting u).mpr ⟨h.phase_waiting u p hold, hu⟩
      held_phase := by
        intro u v hv
        obtain ⟨hmem, hu⟩ := (hheld u v).mp hv
        obtain ⟨p, hp⟩ := h.held_phase u v hmem
        exact ⟨p, (Function.update_of_ne hu ..).trans hp⟩
      phase_held := by
        intro u p hp
        obtain ⟨hu, hold⟩ := hbusy hp Phase.noConfusion
        rw [hclosed, hbuffered]
        rcases h.phase_held u p hold with ⟨v, hv⟩ | hnone
        · exact Or.inl ⟨v, (hheld u v).mpr ⟨hv, hu⟩⟩
        · exact Or.inr hnone
      completed_phase := by
        intro u n hn
        obtain ⟨hmem, hu⟩ := (hcompleted u n).mp hn
        obtain ⟨k, p, hp, hk⟩ := h.completed_phase u n hmem
        exact ⟨k, p, (Function.update_of_ne hu ..).trans hp, hbuffered ▸ hk⟩
      phase_completed := by
        intro u k p hp
        obtain ⟨hu, hold⟩ := hbusy hp Phase.noConfusion
        rw [hclosed, hbuffered]
        rcases h.phase_completed u k p hold with ⟨n, hn⟩ | hnone
        · exact Or.inl ⟨n, (hcompleted u n).mpr ⟨hn, hu⟩⟩
        · exact Or.inr hnone
      apart := by
        intro a b ha hb
        obtain ⟨-, hfirst⟩ := hbusy rfl ha
        obtain ⟨-, hsecond⟩ := hbusy rfl hb
        exact h.apart a b (hfirst ▸ ha) (hsecond ▸ hb)
      pos := by
        intro a ha
        obtain ⟨-, hold⟩ := hbusy rfl ha
        exact h.pos a (hold ▸ ha) }

end Tracked

end RunD.Channel
