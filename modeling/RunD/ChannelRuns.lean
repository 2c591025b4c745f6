/-
Runs of the tasks over one channel.

The record of a run agrees with the contents: the values that were handed over,
then those in the buffer, then those that wait with their senders are what is left
of the values that came in, in this order.  Every step keeps this, so that it
holds after every run (`Runs.coherent`).  A value that came in and was not lost can
still be received (`Coherent.deliverable`), which makes a failed send's value
exactly one that is never delivered.
-/
import Mathlib.Data.List.Count
import RunD.ChannelTasks

namespace RunD.Channel

variable {α : Type} {taskSlot : Nat → Nat} {s : System α} {x : Contents (Sent α)}

/-! ### The record -/

/-- The values that were handed over, lie in the buffer, or wait with their senders. -/
def System.alive (s : System α) (x : Contents (Sent α)) : List (Sent α) :=
  s.handed.map Prod.snd ++ x.buffered ++ x.parked.map Prod.snd

/-- The record agrees with the contents. -/
structure Logged (s : System α) (x : Contents (Sent α)) : Prop where
  order : (s.alive x).Sublist s.entered
  fresh : ∀ v ∈ s.entered, v.call < s.calls
  once : (s.entered.map Sent.call).Nodup
  kept : s.handed.Perm (s.received ++ x.held)
  succeeded : ∀ k, (k, none) ∈ s.reports → k ∈ (s.handed.map Prod.snd ++ x.buffered).map Sent.call
  failed : ∀ k code, (k, some code) ∈ s.reports →
    k < s.calls ∧ k ∉ (s.alive x).map Sent.call ∧ code ≠ ReasonCode.taskContextMissing

/-- **What holds after every run**: the control holds contents that are sound, and the phases and
the record agree with them. -/
structure Coherent (taskSlot : Nat → Nat) (s : System α) (x : Contents (Sent α)) : Prop where
  represents : Represents taskSlot s.control x
  sound : x.Sound taskSlot
  tracked : Tracked taskSlot s.phase x (s.handed.map Prod.snd)
  logged : Logged s x
  known : ∀ t k p w, s.phase t = Phase.sending k p w → k < s.calls

/-- **What a failure tells**: the channel is closed, with nothing left in it for a receiver, or the
task was not allowed to wait. -/
def Justified (taskSlot : Nat → Nat) (x : Contents (Sent α)) (action : Action α) :
    Report α → Prop
  | Report.sendFailed _ code =>
      code = ReasonCode.channelClosed ∧ x.closed = true ∨
      code = ReasonCode.channelWaitCapacityExceeded ∧ (∃ task, action = Action.refusePark task) ∨
      code = ReasonCode.channelCapacityExceeded ∧
        ∃ task value, action = Action.send task value ∧ ¬ taskSlot task < x.taskCapacity
  | Report.recvFailed task code =>
      code = ReasonCode.channelClosed ∧
        (x.closed = true ∧ x.buffered = [] ∧ x.parked = [] ∧ Vacant taskSlot x.held task) ∨
      code = ReasonCode.channelWaitCapacityExceeded ∧ action = Action.refusePark task ∨
      code = ReasonCode.channelCapacityExceeded ∧ action = Action.recv task ∧
        ¬ taskSlot task < x.taskCapacity
  | _ => True

theorem coherent_start (taskSlot : Nat → Nat) (capacity taskCapacity : Nat) :
    Coherent taskSlot (System.start capacity taskCapacity : System α)
      { capacity, taskCapacity } where
  represents := represents_make taskSlot capacity taskCapacity
  sound := sound_make taskSlot capacity taskCapacity
  tracked := tracked_start taskSlot capacity taskCapacity
  logged :=
    { order := List.Sublist.refl _
      fresh := fun _ h => absurd h List.not_mem_nil
      once := List.nodup_nil
      kept := List.Perm.refl _
      succeeded := fun _ h => absurd h List.not_mem_nil
      failed := fun _ _ h => absurd h List.not_mem_nil }
  known := fun _ _ _ _ h => Phase.noConfusion h

namespace Logged

theorem alive_nodup (h : Logged s x) : ((s.alive x).map Sent.call).Nodup :=
  h.once.sublist (h.order.map Sent.call)

theorem alive_lt (h : Logged s x) {k : Nat} (hk : k ∈ (s.alive x).map Sent.call) : k < s.calls := by
  obtain ⟨v, hv, rfl⟩ := List.mem_map.mp hk
  exact h.fresh v (h.order.subset hv)

/-- The value of a sender that waits was not handed over and does not lie in the buffer. -/
theorem parked_fresh (h : Logged s x) {t : Nat} {v : Sent α} (hv : (t, v) ∈ x.parked) :
    v.call ∉ (s.handed.map Prod.snd ++ x.buffered).map Sent.call := by
  have hnodup := h.alive_nodup
  rw [System.alive, List.map_append, List.nodup_append] at hnodup
  intro hin
  refine hnodup.2.2 v.call hin v.call ?_ rfl
  exact List.mem_map_of_mem (List.mem_map_of_mem (f := Prod.snd) hv)

/-- A value comes in. -/
theorem enter (h : Logged s x) {s' : System α} {y : Contents (Sent α)} (value : α)
    (hcalls : s'.calls = s.calls + 1) (hentered : s'.entered = s.entered ++ [⟨s.calls, value⟩])
    (halive : s'.alive y = s.alive x ++ [⟨s.calls, value⟩])
    (hkept : s'.handed.Perm (s'.received ++ y.held))
    (hgone : ∀ k, k ∈ (s.handed.map Prod.snd ++ x.buffered).map Sent.call →
      k ∈ (s'.handed.map Prod.snd ++ y.buffered).map Sent.call)
    (hreports : ∀ e ∈ s'.reports, e ∈ s.reports ∨
      e = (s.calls, none) ∧ s.calls ∈ (s'.handed.map Prod.snd ++ y.buffered).map Sent.call) :
    Logged s' y where
  order := by
    rw [halive, hentered]
    exact h.order.append_right _
  fresh := by
    intro v hv
    rw [hcalls]
    rw [hentered] at hv
    rcases List.mem_append.mp hv with hold | hnew
    · exact Nat.lt_succ_of_lt (h.fresh v hold)
    · cases List.mem_singleton.mp hnew
      exact Nat.lt_succ_self _
  once := by
    rw [hentered, List.map_append, List.map_singleton, List.nodup_append]
    refine ⟨h.once, List.nodup_singleton _, ?_⟩
    rintro k hk _ hlast rfl
    obtain ⟨v, hv, heq⟩ := List.mem_map.mp hk
    have hlt := h.fresh v hv
    rw [List.mem_singleton] at hlast
    dsimp only at hlast
    omega
  kept := hkept
  succeeded := by
    intro k hk
    rcases hreports _ hk with hold | ⟨heq, hin⟩
    · exact hgone k (h.succeeded k hold)
    · cases heq
      exact hin
  failed := by
    intro k code hk
    rcases hreports _ hk with hold | ⟨heq, -⟩
    · obtain ⟨hlt, hnot, hcode⟩ := h.failed k code hold
      rw [hcalls, halive]
      refine ⟨Nat.lt_succ_of_lt hlt, ?_, hcode⟩
      rw [List.map_append, List.mem_append]
      rintro (hin | hin)
      · exact hnot hin
      · rw [List.map_singleton, List.mem_singleton] at hin
        dsimp only at hin
        omega
    · cases heq

/-- No value comes in; values are handed over or lost. -/
theorem pass (h : Logged s x) {s' : System α} {y : Contents (Sent α)}
    (hcalls : s.calls ≤ s'.calls) (hentered : s'.entered = s.entered)
    (halive : (s'.alive y).Sublist (s.alive x))
    (hkept : s'.handed.Perm (s'.received ++ y.held))
    (hgone : ∀ k, k ∈ (s.handed.map Prod.snd ++ x.buffered).map Sent.call →
      k ∈ (s'.handed.map Prod.snd ++ y.buffered).map Sent.call)
    (hsucceeded : ∀ k, (k, none) ∈ s'.reports → (k, none) ∈ s.reports ∨
      k ∈ (s'.handed.map Prod.snd ++ y.buffered).map Sent.call)
    (hfailed : ∀ k code, (k, some code) ∈ s'.reports → (k, some code) ∈ s.reports ∨
      k < s'.calls ∧ k ∉ (s'.alive y).map Sent.call ∧ code ≠ ReasonCode.taskContextMissing) :
    Logged s' y where
  order := by
    rw [hentered]
    exact halive.trans h.order
  fresh := by
    intro v hv
    rw [hentered] at hv
    exact Nat.lt_of_lt_of_le (h.fresh v hv) hcalls
  once := by
    rw [hentered]
    exact h.once
  kept := hkept
  succeeded := by
    intro k hk
    rcases hsucceeded k hk with hold | hin
    · exact hgone k (h.succeeded k hold)
    · exact hin
  failed := by
    intro k code hk
    rcases hfailed k code hk with hold | hnew
    · obtain ⟨hlt, hnot, hcode⟩ := h.failed k code hold
      refine ⟨Nat.lt_of_lt_of_le hlt hcalls, ?_, hcode⟩
      intro hin
      exact hnot ((halive.map Sent.call).subset hin)
    · exact hnew

/-- A value that is handed to the receiver that asks for it is received. -/
theorem kept_taken (h : Logged s x) (e : Nat × Sent α) :
    (s.handed ++ [e]).Perm (s.received ++ [e] ++ x.held) := by
  have hmoved : (x.held ++ [e]).Perm ([e] ++ x.held) := List.perm_append_comm
  have hleft := hmoved.append_left s.received
  rw [← List.append_assoc, ← List.append_assoc] at hleft
  exact (h.kept.append_right [e]).trans hleft

end Logged

namespace Coherent

/-- Waking tasks gives no sender a new call. -/
theorem known_wakeAll (h : Coherent taskSlot s x) (tasks : List Nat) {n : Nat} (hn : s.calls ≤ n) :
    ∀ t k p w, wakeAll s.phase tasks t = Phase.sending k p w → k < n := by
  intro t k p w hp
  obtain ⟨w', hold⟩ := wakeAll_sending hp
  exact Nat.lt_of_lt_of_le (h.known t k p w' hold) hn

/-- A task that gets another phase is the only one with another call. -/
theorem known_update (h : Coherent taskSlot s x) {t n : Nat} {ph : Phase} (hn : s.calls ≤ n)
    (hph : ∀ k p w, ph = Phase.sending k p w → k < n) :
    ∀ u k p w, Function.update s.phase t ph u = Phase.sending k p w → k < n := by
  intro u k p w hp
  by_cases hu : u = t
  · rw [hu, Function.update_self] at hp
    exact hph k p w hp
  · rw [Function.update_of_ne hu] at hp
    exact Nat.lt_of_lt_of_le (h.known u k p w hp) hn

/-! ### Sending -/

/-- A send keeps the record, the phases and the contents together. -/
theorem send (h : Coherent taskSlot s x) {t : Nat} (hready : s.Ready taskSlot t) (value : α) :
    ∃ s' report, s.send taskSlot t value = some (s', report) ∧
      Coherent taskSlot s' (x.send taskSlot t ⟨s.calls, value⟩).2 ∧
      Justified taskSlot x (Action.send t value) report := by
  obtain ⟨hpos, hidle, hfree⟩ := hready
  have hstranger := h.tracked.stranger hfree
  obtain ⟨control', hsection, hnext⟩ :=
    sendSection_eq h.represents h.sound hpos hstranger (⟨s.calls, value⟩ : Sent α)
  have hsound := h.sound.send hstranger (⟨s.calls, value⟩ : Sent α)
  have hlog := h.logged
  rw [System.send, hsection]
  rcases x.send_cases taskSlot t ⟨s.calls, value⟩ with
    ⟨code, hsend, hcode⟩ | ⟨receiver, others, hopen, hwaiting, hsend⟩ |
    ⟨hopen, hwaiting, hroom, hsend⟩ | ⟨hopen, hwaiting, hroom, hsend⟩
  · -- refused: only the report is new
    rw [hsend] at hnext hsound ⊢
    refine ⟨_, _, rfl, ⟨hnext, hsound, h.tracked, ?_,
      fun u k p w hp => Nat.lt_succ_of_lt (h.known u k p w hp)⟩, ?_⟩
    · refine hlog.pass (Nat.le_succ _) rfl (List.Sublist.refl _) hlog.kept (fun _ hk => hk) ?_ ?_
      · intro k hk
        rcases List.mem_append.mp hk with hold | hnew
        · exact Or.inl hold
        · cases List.mem_singleton.mp hnew
      · intro k code' hk
        rcases List.mem_append.mp hk with hold | hnew
        · exact Or.inl hold
        · cases List.mem_singleton.mp hnew
          refine Or.inr ⟨Nat.lt_succ_self _, fun hin => ?_, ?_⟩
          · exact Nat.lt_irrefl _ (hlog.alive_lt hin)
          · rcases hcode with ⟨rfl, -⟩ | ⟨rfl, -⟩
            · exact ReasonCode.noConfusion
            · exact ReasonCode.noConfusion
    · rcases hcode with hcode | ⟨hcode, hslot⟩
      · exact Or.inl hcode
      · exact Or.inr (Or.inr ⟨hcode, t, value, rfl, hslot⟩)
  · -- handed to the first receiver: no other value is in the channel
    rw [hsend] at hnext hsound ⊢
    have hnone := h.sound.starving (hwaiting ▸ List.cons_ne_nil _ _)
    have htracked := h.tracked.pass hwaiting h.represents.receivers.ids_nodup hopen
      (⟨s.calls, value⟩ : Sent α)
    have hhanded : (s.handed ++ [(receiver, (⟨s.calls, value⟩ : Sent α))]).map Prod.snd =
        s.handed.map Prod.snd ++ [⟨s.calls, value⟩] := by
      rw [List.map_append, List.map_singleton]
    refine ⟨_, _, rfl, ⟨hnext, hsound, hhanded ▸ htracked, ?_,
      h.known_wakeAll [receiver] (Nat.le_succ _)⟩, trivial⟩
    refine hlog.enter value rfl rfl ?_ ?_ ?_ ?_
    · show (s.handed ++ [(receiver, _)]).map Prod.snd ++ x.buffered ++ x.parked.map Prod.snd = _
      rw [hhanded, System.alive, hnone.1, hnone.2, List.map_nil, List.append_nil, List.append_nil,
        List.append_nil, List.append_nil]
    · show (s.handed ++ [_]).Perm (s.received ++ (x.held ++ [_]))
      rw [← List.append_assoc]
      exact hlog.kept.append_right _
    · intro k hk
      show k ∈ ((s.handed ++ [(receiver, _)]).map Prod.snd ++ x.buffered).map Sent.call
      rw [hhanded]
      simp only [List.map_append, List.mem_append] at hk ⊢
      exact hk.imp_left Or.inl
    · intro e he
      rcases List.mem_append.mp he with hold | hnew
      · exact Or.inl hold
      · refine Or.inr ⟨List.mem_singleton.mp hnew, ?_⟩
        show _ ∈ ((s.handed ++ [(receiver, _)]).map Prod.snd ++ x.buffered).map Sent.call
        rw [hhanded]
        simp
  · -- put into the buffer: no sender waits
    rw [hsend] at hnext hsound ⊢
    have hparked : x.parked = [] := by
      by_contra hwaits
      have := h.sound.full hwaits
      omega
    have hgrown : ∀ k, k ∈ (s.handed.map Prod.snd ++ x.buffered).map Sent.call →
        k ∈ (s.handed.map Prod.snd ++ (x.buffered ++ [(⟨s.calls, value⟩ : Sent α)])).map
          Sent.call := by
      intro k hk
      rw [← List.append_assoc, List.map_append, List.mem_append]
      exact Or.inl hk
    refine ⟨_, _, rfl, ⟨hnext, hsound, ?_, ?_, h.known_wakeAll [] (Nat.le_succ _)⟩, trivial⟩
    · have htracked := h.tracked.move (x.buffered ++ [(⟨s.calls, value⟩ : Sent α)])
        (s.handed.map Prod.snd)
        (fun hclosed => absurd hclosed hopen) hgrown fun hclosed => absurd hclosed hopen
      show Tracked taskSlot (wakeAll s.phase []) _ ((s.handed ++ []).map Prod.snd)
      rw [wakeAll_nil, List.append_nil]
      exact htracked
    · refine hlog.enter value rfl rfl ?_ ?_ ?_ ?_
      · show (s.handed ++ []).map Prod.snd ++ (x.buffered ++ [_]) ++ x.parked.map Prod.snd = _
        rw [System.alive, hparked, List.map_nil, List.append_nil, List.append_nil, List.append_nil,
          List.append_assoc]
      · show (s.handed ++ []).Perm (s.received ++ x.held)
        rw [List.append_nil]
        exact hlog.kept
      · intro k hk
        show k ∈ ((s.handed ++ []).map Prod.snd ++ _).map Sent.call
        rw [List.append_nil]
        exact hgrown k hk
      · intro e he
        rcases List.mem_append.mp he with hold | hnew
        · exact Or.inl hold
        · refine Or.inr ⟨List.mem_singleton.mp hnew, ?_⟩
          simp [System.reported]
  · -- the sender waits with the value
    rw [hsend] at hnext hsound ⊢
    refine ⟨_, _, rfl, ⟨hnext, hsound, ?_, ?_, ?_⟩, trivial⟩
    · exact h.tracked.beginSend hpos hidle hfree ⟨s.calls, value⟩
    · refine hlog.enter value rfl rfl ?_ hlog.kept (fun _ hk => hk) fun e he => Or.inl he
      show s.handed.map Prod.snd ++ x.buffered ++ (x.parked ++ [(t, _)]).map Prod.snd = _
      rw [List.map_append, ← List.append_assoc]
      rfl
    · apply h.known_update (Nat.le_succ _)
      intro k p w hp
      cases hp
      exact Nat.lt_succ_self _

/-! ### Receiving -/

/-- A task stays ready when others are woken. -/
theorem ready_wakeAll {s' : System α} {t : Nat} (tasks : List Nat)
    (hphase : s'.phase = wakeAll s.phase tasks) (hready : s.Ready taskSlot t) :
    s'.Ready taskSlot t := by
  obtain ⟨hpos, hidle, hfree⟩ := hready
  rw [System.Ready, hphase]
  exact ⟨hpos, wakeAll_idle_iff.mpr hidle, fun u hu => hfree u (mt wakeAll_idle_iff.mpr hu)⟩

/-- A receive keeps the record, the phases and the contents together; a task that finds a value in
the buffer has received it and is ready for more. -/
theorem recv (h : Coherent taskSlot s x) {t : Nat} (hready : s.Ready taskSlot t) :
    ∃ s' report, s.recv taskSlot t = some (s', report) ∧
      Coherent taskSlot s' (x.recv taskSlot t).2 ∧
      Justified taskSlot x (Action.recv t) report ∧
      ∀ value rest, x.buffered = value :: rest →
        s'.received = s.received ++ [(t, value)] ∧ s'.Ready taskSlot t ∧
          ∃ more, (x.recv taskSlot t).2.buffered = rest ++ more := by
  obtain ⟨hpos, hidle, hfree⟩ := hready
  have hstranger := h.tracked.stranger hfree
  obtain ⟨control', hsection, hnext⟩ := recvSection_eq h.represents h.sound hpos hstranger
  have hsound := h.sound.recv hstranger
  have hlog := h.logged
  rw [System.recv, hsection]
  rcases x.recv_cases taskSlot t with
    ⟨code, hbuffered, hparked, hrecv, hcode⟩ | ⟨value, rest, hbuffered, hparked, hrecv⟩ |
    ⟨value, rest, sender, parked, others, hbuffered, hparked, hrecv⟩ |
    ⟨sender, parked, others, hbuffered, hparked, hrecv⟩ | ⟨hopen, hbuffered, hparked, hrecv⟩
  · -- nothing there, and no wait
    rw [hrecv] at hnext hsound ⊢
    refine ⟨_, _, rfl, ⟨hnext, hsound, h.tracked, ?_, h.known⟩, ?_, ?_⟩
    · exact hlog.pass (Nat.le_refl _) rfl (List.Sublist.refl _) hlog.kept (fun _ hk => hk)
        (fun _ hk => Or.inl hk) fun _ _ hk => Or.inl hk
    · rcases hcode with ⟨hcode, hclosed⟩ | ⟨hcode, hslot⟩
      · exact Or.inl ⟨hcode, hclosed, hbuffered, hparked, hstranger.vacant_held⟩
      · exact Or.inr (Or.inr ⟨hcode, rfl, hslot⟩)
    · intro value rest hsome
      rw [hbuffered] at hsome
      cases hsome
  · -- from the buffer, which nobody refills
    rw [hrecv] at hnext hsound ⊢
    have hsame : (s.handed ++ [(t, value)]).map Prod.snd ++ rest =
        s.handed.map Prod.snd ++ x.buffered := by
      rw [hbuffered, List.map_append, List.map_singleton, List.append_assoc]
      rfl
    refine ⟨_, _, rfl, ⟨hnext, hsound, ?_, ?_, h.known_wakeAll [] (Nat.le_refl _)⟩,
      trivial, ?_⟩
    · show Tracked taskSlot (wakeAll s.phase []) _ ((s.handed ++ [(t, value)]).map Prod.snd)
      rw [wakeAll_nil]
      apply h.tracked.move
      · intro _ hempty
        rw [hbuffered] at hempty
        cases hempty
      · rw [hsame]
        exact fun _ hk => hk
      · rw [hsame]
        exact fun _ _ hk => hk
    · refine hlog.pass (Nat.le_refl _) rfl ?_ ?_ ?_ (fun _ hk => Or.inl hk) fun _ _ hk => Or.inl hk
      · show ((s.handed ++ [(t, value)]).map Prod.snd ++ rest ++ x.parked.map Prod.snd).Sublist _
        rw [hsame]
        exact List.Sublist.refl _
      · exact hlog.kept_taken (t, value)
      · intro k hk
        show k ∈ ((s.handed ++ [(t, value)]).map Prod.snd ++ rest).map Sent.call
        rw [hsame]
        exact hk
    · intro value' rest' hsome
      rw [hbuffered] at hsome
      cases hsome
      exact ⟨rfl, ready_wakeAll [] rfl ⟨hpos, hidle, hfree⟩, [], (List.append_nil _).symm⟩
  · -- from the buffer, which the first sender refills
    rw [hrecv] at hnext hsound ⊢
    have hopen : ¬ x.closed = true := by
      intro hclosed
      have := (h.sound.quiet hclosed).1
      rw [hparked] at this
      cases this
    have hsame : (s.handed ++ [(t, value)]).map Prod.snd ++ (rest ++ [parked]) =
        s.handed.map Prod.snd ++ x.buffered ++ [parked] := by
      rw [hbuffered, List.map_append, List.map_singleton, List.append_assoc, List.append_assoc,
        List.singleton_append, List.cons_append]
    have hgrown : ∀ k, k ∈ (s.handed.map Prod.snd ++ x.buffered).map Sent.call →
        k ∈ ((s.handed ++ [(t, value)]).map Prod.snd ++ (rest ++ [parked])).map Sent.call := by
      intro k hk
      rw [hsame, List.map_append, List.mem_append]
      exact Or.inl hk
    refine ⟨_, _, rfl, ⟨hnext, hsound, ?_, ?_, h.known_wakeAll [sender] (Nat.le_refl _)⟩,
      trivial, ?_⟩
    · apply h.tracked.complete hparked h.represents.senders.ids_nodup hopen _ _ hgrown
      rw [hsame, List.map_append, List.mem_append]
      exact Or.inr (List.mem_singleton_self _)
    · refine hlog.pass (Nat.le_refl _) rfl ?_ (hlog.kept_taken (t, value)) hgrown
        (fun _ hk => Or.inl hk) fun _ _ hk => Or.inl hk
      show ((s.handed ++ [(t, value)]).map Prod.snd ++ (rest ++ [parked]) ++
        others.map Prod.snd).Sublist _
      rw [hsame, System.alive, hparked, List.append_assoc]
      exact List.Sublist.refl _
    · intro value' rest' hsome
      rw [hbuffered] at hsome
      cases hsome
      exact ⟨rfl, ready_wakeAll [sender] rfl ⟨hpos, hidle, hfree⟩, [parked], rfl⟩
  · -- from the first sender
    rw [hrecv] at hnext hsound ⊢
    have hopen : ¬ x.closed = true := by
      intro hclosed
      have := (h.sound.quiet hclosed).1
      rw [hparked] at this
      cases this
    have hsame : (s.handed ++ [(t, parked)]).map Prod.snd ++ x.buffered =
        s.handed.map Prod.snd ++ x.buffered ++ [parked] := by
      rw [hbuffered, List.map_append, List.map_singleton, List.append_nil, List.append_nil]
    have hgrown : ∀ k, k ∈ (s.handed.map Prod.snd ++ x.buffered).map Sent.call →
        k ∈ ((s.handed ++ [(t, parked)]).map Prod.snd ++ x.buffered).map Sent.call := by
      intro k hk
      rw [hsame, List.map_append, List.mem_append]
      exact Or.inl hk
    refine ⟨_, _, rfl, ⟨hnext, hsound, ?_, ?_, h.known_wakeAll [sender] (Nat.le_refl _)⟩,
      trivial, ?_⟩
    · apply h.tracked.complete hparked h.represents.senders.ids_nodup hopen _ _ hgrown
      rw [hsame, List.map_append, List.mem_append]
      exact Or.inr (List.mem_singleton_self _)
    · refine hlog.pass (Nat.le_refl _) rfl ?_ (hlog.kept_taken (t, parked)) hgrown
        (fun _ hk => Or.inl hk) fun _ _ hk => Or.inl hk
      show ((s.handed ++ [(t, parked)]).map Prod.snd ++ x.buffered ++ others.map Prod.snd).Sublist _
      rw [hsame, System.alive, hparked, List.append_assoc]
      exact List.Sublist.refl _
    · intro value' rest' hsome
      rw [hbuffered] at hsome
      cases hsome
  · -- the receiver waits
    rw [hrecv] at hnext hsound ⊢
    refine ⟨_, _, rfl, ⟨hnext, hsound, h.tracked.beginRecv hpos hidle hfree, ?_, ?_⟩,
      trivial, ?_⟩
    · exact hlog.pass (Nat.le_refl _) rfl (List.Sublist.refl _) hlog.kept (fun _ hk => hk)
        (fun _ hk => Or.inl hk) fun _ _ hk => Or.inl hk
    · exact h.known_update (Nat.le_refl _) fun _ _ _ hp => Phase.noConfusion hp
    · intro value rest hsome
      rw [hbuffered] at hsome
      cases hsome

/-! ### Closing and parking -/

theorem close (h : Coherent taskSlot s x) :
    ∃ control', s.close taskSlot =
        ({ s with control := control', phase := wakeAll s.phase x.close.1 }, Report.quiet) ∧
      Coherent taskSlot { s with control := control', phase := wakeAll s.phase x.close.1 }
        x.close.2 := by
  obtain ⟨control', hsection, hnext⟩ := closeSection_eq h.represents
  rw [System.close, hsection]
  refine ⟨control', rfl, hnext, h.sound.close, ?_, ?_, h.known_wakeAll _ (Nat.le_refl _)⟩
  · exact h.tracked.close (fun hwaits => (h.sound.starving hwaits).1)
      fun _ _ hv => h.logged.parked_fresh hv
  · refine h.logged.pass (Nat.le_refl _) rfl ?_ h.logged.kept (fun _ hk => hk)
      (fun _ hk => Or.inl hk) fun _ _ hk => Or.inl hk
    rw [System.alive, System.alive]
    exact (List.nil_sublist _).append_left _

theorem park (h : Coherent taskSlot s x) (t : Nat) :
    Coherent taskSlot { s with phase := Function.update s.phase t (s.phase t).park } x where
  represents := h.represents
  sound := h.sound
  tracked := h.tracked.park t
  logged := h.logged.pass (Nat.le_refl _) rfl (List.Sublist.refl _) h.logged.kept (fun _ hk => hk)
    (fun _ hk => Or.inl hk) fun _ _ hk => Or.inl hk
  known := by
    apply h.known_update (Nat.le_refl _)
    intro k p w hp
    cases hphase : s.phase t with
    | idle =>
        rw [hphase] at hp
        cases hp
    | sending call parked woken =>
        rw [hphase] at hp
        cases hp
        exact h.known t _ _ _ hphase
    | receiving =>
        rw [hphase] at hp
        cases hp

/-! ### Withdrawing -/

theorem mem_waiting_untouched {t : Nat} (ht : t ∉ x.waiting) (u : Nat) :
    u ∈ x.waiting ↔ u ∈ x.waiting ∧ u ≠ t :=
  ⟨fun hu => ⟨hu, fun heq => ht (heq ▸ hu)⟩, And.left⟩

/-- The value of a sender that no longer waits is nowhere. -/
theorem withdrawn_lost (h : Logged s x) {t : Nat} {v : Sent α} (hv : (t, v) ∈ x.parked) :
    v.call ∉ (s.alive (x.withdrawSend t)).map Sent.call := by
  have hnodup := h.alive_nodup
  rw [System.alive, List.map_append, List.nodup_append, List.map_map] at hnodup
  rw [System.alive, List.map_append, List.mem_append]
  rintro (hin | hin)
  · exact h.parked_fresh hv hin
  · obtain ⟨w, hw, heq⟩ := List.mem_map.mp hin
    obtain ⟨⟨u, w'⟩, he, rfl⟩ := List.mem_map.mp hw
    obtain ⟨hmem, hne⟩ := (mem_others u w').mp he
    have hsame := List.inj_on_of_nodup_map hnodup.2.1 hmem hv heq
    cases hsame
    exact hne rfl

/-- A task that may not park is taken out of its queue. -/
theorem refusePark (h : Coherent taskSlot s x) {t : Nat} (hbusy : s.phase t ≠ Phase.idle)
    (hwoken : (s.phase t).woken = false) :
    ∃ s' report y, s.refusePark taskSlot t = some (s', report) ∧ Coherent taskSlot s' y ∧
      Justified taskSlot x (Action.refusePark t) report := by
  rw [System.refusePark]
  rcases hphase : s.phase t with - | ⟨k, p, w⟩ | ⟨p, w⟩
  · exact absurd hphase hbusy
  · rw [hphase] at hwoken
    cases (show w = false from hwoken)
    obtain ⟨v, rfl, hv⟩ := h.tracked.phase_parked t k p hphase
    obtain ⟨hwaiting, hheld⟩ := h.tracked.sender_only hphase
    refine ⟨_, _, x.withdrawSend t, rfl,
      ⟨removeSendWaiter_eq h.represents hv, h.sound.withdrawSend t, ?_, ?_, ?_⟩,
      Or.inr (Or.inl ⟨rfl, t, rfl⟩)⟩
    · exact h.tracked.finish rfl rfl mem_others (mem_waiting_untouched hwaiting)
        (mem_untouched hheld) (mem_untouched (h.tracked.unwoken_sender hphase))
    · refine h.logged.pass (Nat.le_refl _) rfl ?_ h.logged.kept (fun _ hk => hk) ?_ ?_
      · exact (List.filter_sublist.map _).append_left _
      · intro k hk
        rcases List.mem_append.mp hk with hold | hnew
        · exact Or.inl hold
        · cases List.mem_singleton.mp hnew
      · intro k code hk
        rcases List.mem_append.mp hk with hold | hnew
        · exact Or.inl hold
        · cases List.mem_singleton.mp hnew
          refine Or.inr ⟨h.known t _ _ _ hphase, ?_, ReasonCode.noConfusion⟩
          exact withdrawn_lost h.logged hv
    · exact h.known_update (Nat.le_refl _) fun _ _ _ hp => Phase.noConfusion hp
  · rw [hphase] at hwoken
    cases (show w = false from hwoken)
    have hmem := h.tracked.phase_waiting t p hphase
    obtain ⟨hparked, hcompleted⟩ := h.tracked.receiver_only hphase
    refine ⟨_, _, x.withdrawRecv t, rfl,
      ⟨removeRecvWaiter_eq h.represents hmem, h.sound.withdrawRecv t, ?_, ?_, ?_⟩,
      Or.inr (Or.inl ⟨rfl, rfl⟩)⟩
    · refine h.tracked.finish rfl rfl (mem_untouched hparked) ?_
        (mem_untouched (h.tracked.unwoken_receiver hphase)) (mem_untouched hcompleted)
      intro u
      show u ∈ x.waiting.filter (· != t) ↔ _
      rw [List.mem_filter, bne_iff_ne]
    · exact h.logged.pass (Nat.le_refl _) rfl (List.Sublist.refl _) h.logged.kept (fun _ hk => hk)
        (fun _ hk => Or.inl hk) fun _ _ hk => Or.inl hk
    · exact h.known_update (Nat.le_refl _) fun _ _ _ hp => Phase.noConfusion hp

/-! ### Resuming -/

/-- A woken task ends its operation. -/
theorem resume (h : Coherent taskSlot s x) {t : Nat} (hwoken : (s.phase t).woken = true) :
    ∃ s' report y, s.resume taskSlot t = some (s', report) ∧ Coherent taskSlot s' y ∧
      s'.phase = Function.update s.phase t Phase.idle ∧ y.buffered = x.buffered ∧
      (∀ v, (t, v) ∈ x.held → ∃ w, (t, w) ∈ s'.received ∧ (t, w) ∈ x.held) ∧
      Justified taskSlot x (Action.resume t) report := by
  rw [System.resume]
  rcases hphase : s.phase t with - | ⟨k, p, w⟩ | ⟨p, w⟩
  · rw [hphase] at hwoken
    cases hwoken
  · rw [hphase] at hwoken
    cases (show w = true from hwoken)
    have hbusy : s.phase t ≠ Phase.idle := hphase ▸ Phase.noConfusion
    obtain ⟨control', hsection, hnext⟩ :=
      resumeSend_eq h.represents (h.tracked.alone_completed hbusy)
    obtain ⟨hwaiting, hheld⟩ := h.tracked.sender_only hphase
    have htracked := h.tracked.finish (y := (x.resumeSend t).2) (t := t) rfl rfl
      (mem_untouched (h.tracked.woken_sender hphase)) (mem_waiting_untouched hwaiting)
      (mem_untouched hheld) mem_others
    have hknown := h.known_update (t := t) (Nat.le_refl _)
      (fun _ _ _ (hp : Phase.idle = _) => Phase.noConfusion hp)
    rcases hlookup : x.completed.lookup t with - | valueCount
    · -- the channel was closed, and the value is lost
      have hfirst : (x.resumeSend t).1 = Except.error
          (if x.closed then ReasonCode.channelClosed else ReasonCode.taskContextMissing) := by
        rw [Contents.resumeSend, hlookup]
      rcases h.tracked.phase_completed t k p hphase with ⟨n, hn⟩ | ⟨hclosed, hlost⟩
      · exact absurd hn (notMem_of_lookup hlookup n)
      rw [if_pos hclosed] at hfirst
      dsimp only
      rw [hsection, hfirst]
      refine ⟨_, _, (x.resumeSend t).2, rfl,
        ⟨hnext, h.sound.resumeSend t, htracked, ?_, hknown⟩, rfl, rfl,
        fun v hv => absurd hv (hheld v), Or.inl ⟨rfl, hclosed⟩⟩
      refine h.logged.pass (Nat.le_refl _) rfl (List.Sublist.refl _) h.logged.kept
        (fun _ hk => hk) ?_ ?_
      · intro k' hk
        rcases List.mem_append.mp hk with hold | hnew
        · exact Or.inl hold
        · cases List.mem_singleton.mp hnew
      · intro k' code hk
        rcases List.mem_append.mp hk with hold | hnew
        · exact Or.inl hold
        · cases List.mem_singleton.mp hnew
          refine Or.inr ⟨h.known t _ _ _ hphase, ?_, ReasonCode.noConfusion⟩
          show _ ∉ (s.handed.map Prod.snd ++ x.buffered ++ x.parked.map Prod.snd).map Sent.call
          rw [(h.sound.quiet hclosed).1, List.map_nil, List.append_nil]
          exact hlost
    · -- the value was taken
      have hfirst : (x.resumeSend t).1 = Except.ok valueCount := by
        rw [Contents.resumeSend, hlookup]
      obtain ⟨k', q, hq, hin⟩ := h.tracked.completed_phase t valueCount (mem_of_lookup hlookup)
      rw [hphase] at hq
      cases hq
      dsimp only
      rw [hsection, hfirst]
      refine ⟨_, _, (x.resumeSend t).2, rfl,
        ⟨hnext, h.sound.resumeSend t, htracked, ?_, hknown⟩, rfl, rfl,
        fun v hv => absurd hv (hheld v), trivial⟩
      refine h.logged.pass (Nat.le_refl _) rfl (List.Sublist.refl _) h.logged.kept
        (fun _ hk => hk) ?_ ?_
      · intro k' hk
        rcases List.mem_append.mp hk with hold | hnew
        · exact Or.inl hold
        · cases List.mem_singleton.mp hnew
          exact Or.inr hin
      · intro k' code hk
        rcases List.mem_append.mp hk with hold | hnew
        · exact Or.inl hold
        · cases List.mem_singleton.mp hnew
  · rw [hphase] at hwoken
    cases (show w = true from hwoken)
    have hbusy : s.phase t ≠ Phase.idle := hphase ▸ Phase.noConfusion
    obtain ⟨control', hsection, hnext⟩ := resumeRecv_eq h.represents (h.tracked.alone_held hbusy)
    obtain ⟨hparked, hcompleted⟩ := h.tracked.receiver_only hphase
    have htracked := h.tracked.finish (y := (x.resumeRecv t).2) (t := t) rfl rfl
      (mem_untouched hparked) (mem_waiting_untouched (h.tracked.woken_receiver hphase))
      mem_others (mem_untouched hcompleted)
    have hknown := h.known_update (t := t) (Nat.le_refl _)
      (fun _ _ _ (hp : Phase.idle = _) => Phase.noConfusion hp)
    rcases hlookup : x.held.lookup t with - | value
    · -- the channel was closed, and there is no value
      have hfirst : (x.resumeRecv t).1 = Except.error
          (if x.closed then ReasonCode.channelClosed else ReasonCode.taskContextMissing) := by
        rw [Contents.resumeRecv, hlookup]
      rcases h.tracked.phase_held t p hphase with ⟨v, hv⟩ | ⟨hclosed, hempty⟩
      · exact absurd hv (notMem_of_lookup hlookup v)
      have hvacant : Vacant taskSlot x.held t := by
        intro u v hv heq
        cases h.tracked.alone_held hbusy u v hv heq
        exact notMem_of_lookup hlookup v hv
      rw [if_pos hclosed] at hfirst
      dsimp only
      rw [hsection, hfirst]
      refine ⟨_, _, (x.resumeRecv t).2, rfl,
        ⟨hnext, h.sound.resumeRecv t, htracked, ?_, hknown⟩, rfl, rfl,
        fun v hv => absurd hv (notMem_of_lookup hlookup v),
        Or.inl ⟨rfl, hclosed, hempty, (h.sound.quiet hclosed).1, hvacant⟩⟩
      refine h.logged.pass (Nat.le_refl _) rfl (List.Sublist.refl _) ?_ (fun _ hk => hk)
        (fun _ hk => Or.inl hk) fun _ _ hk => Or.inl hk
      show s.handed.Perm (s.received ++ x.held.filter (·.1 != t))
      rw [filter_absent hlookup]
      exact h.logged.kept
    · -- the value that lay ready is received
      have hfirst : (x.resumeRecv t).1 = Except.ok (value, x.buffered.length) := by
        rw [Contents.resumeRecv, hlookup]
      have hmem := mem_of_lookup hlookup
      obtain ⟨before, rest, hsplit⟩ := List.append_of_mem hmem
      have hother : t ∉ (before ++ rest).map Prod.fst := by
        have hnodup := h.sound.nodup_held.of_map
        rw [hsplit, List.map_append, List.map_cons] at hnodup
        rw [List.map_append]
        exact (List.nodup_middle.mp hnodup).notMem
      dsimp only
      rw [hsection, hfirst]
      refine ⟨_, _, (x.resumeRecv t).2, rfl,
        ⟨hnext, h.sound.resumeRecv t, htracked, ?_, hknown⟩, rfl, rfl,
        fun v hv => ⟨value, List.mem_append_right _ (List.mem_singleton_self _), hmem⟩, trivial⟩
      refine h.logged.pass (Nat.le_refl _) rfl (List.Sublist.refl _) ?_ (fun _ hk => hk)
        (fun _ hk => Or.inl hk) fun _ _ hk => Or.inl hk
      show s.handed.Perm (s.received ++ [(t, value)] ++ x.held.filter (·.1 != t))
      have hkept := h.logged.kept
      rw [hsplit] at hkept ⊢
      rw [filter_split hother, List.append_assoc]
      exact hkept.trans (List.perm_middle.append_left _)

/-! ### Steps and runs -/

/-- **What a step keeps**: it has a result, what holds after every run still holds, and a failure
is justified. -/
theorem step (h : Coherent taskSlot s x) {action : Action α}
    (hadmissible : s.Admissible taskSlot action) :
    ∃ s' report y, s.step taskSlot action = some (s', report) ∧ Coherent taskSlot s' y ∧
      Justified taskSlot x action report := by
  cases action with
  | send t value =>
      obtain ⟨s', report, hstep, hnext, hwhy⟩ := h.send hadmissible value
      exact ⟨s', report, _, hstep, hnext, hwhy⟩
  | recv t =>
      obtain ⟨s', report, hstep, hnext, hwhy, -⟩ := h.recv hadmissible
      exact ⟨s', report, _, hstep, hnext, hwhy⟩
  | close =>
      obtain ⟨control', hstep, hnext⟩ := h.close
      exact ⟨_, _, _, congrArg some hstep, hnext, trivial⟩
  | park t => exact ⟨_, _, x, rfl, h.park t, trivial⟩
  | refusePark t => exact h.refusePark hadmissible.1 hadmissible.2.2
  | resume t =>
      obtain ⟨s', report, y, hstep, hnext, -, -, -, hwhy⟩ := h.resume hadmissible.2
      exact ⟨s', report, y, hstep, hnext, hwhy⟩

end Coherent

/-- A run keeps what every step keeps. -/
theorem Runs.coherent {first : System α} {trace : List (Action α × Report α)}
    (hruns : Runs taskSlot first trace s) (h : Coherent taskSlot first x) :
    ∃ y, Coherent taskSlot s y := by
  induction hruns with
  | start => exact ⟨x, h⟩
  | step _ hadmissible hstep ih =>
      obtain ⟨y, hy⟩ := ih
      obtain ⟨s', report, z, hstep', hz, -⟩ := hy.step hadmissible
      rw [hstep] at hstep'
      cases hstep'
      exact ⟨z, hz⟩

/-- One run goes on where another one ends. -/
theorem Runs.trans {first middle : System α} {trace more : List (Action α × Report α)}
    (hfirst : Runs taskSlot first trace middle) (hmore : Runs taskSlot middle more s) :
    Runs taskSlot first (trace ++ more) s := by
  induction hmore with
  | start =>
      rw [List.append_nil]
      exact hfirst
  | step _ hadmissible hstep ih =>
      rw [← List.append_assoc]
      exact Runs.step ih hadmissible hstep

/-- A run takes one more action. -/
theorem Runs.next {first s' : System α} {trace : List (Action α × Report α)}
    (hruns : Runs taskSlot first trace s) (action : Action α) {report : Report α}
    (hadmissible : s.Admissible taskSlot action)
    (hstep : s.step taskSlot action = some (s', report)) :
    Runs taskSlot first (trace ++ [(action, report)]) s' :=
  Runs.step hruns hadmissible hstep

theorem Runs.single {s' : System α} (action : Action α) {report : Report α}
    (hadmissible : s.Admissible taskSlot action)
    (hstep : s.step taskSlot action = some (s', report)) :
    Runs taskSlot s [(action, report)] s' :=
  Runs.start.next action hadmissible hstep

end RunD.Channel
