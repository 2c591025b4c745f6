/-
Admissions and retirements over a whole run.

A retirement deletes the word of the record while the record still has its id;
what follows may empty the table or build it anew, and either way the table has
the other records.  So one operation keeps `Sound`, and by induction every run
of admissible operations ends: no admission is refused, and no rebuild aborts.
-/
import RunD.TaskIndexSearch

namespace RunD.TaskIndex

variable {t : TaskIndex} {live : Finset ℕ} {id : UInt64} {index capacity : ℕ}

/-! ### Forgetting a record -/

/-- The table with empty slots only has no record. -/
theorem emptied_indexed (t : TaskIndex) : t.emptied.Indexed ∅ := by
  have hword : ∀ (s : ℕ) (entry : UInt32), t.emptied.slots[s]? = some entry →
      entry = kIndexEmpty := fun s entry hentry =>
    List.eq_of_mem_replicate (List.mem_of_getElem? hentry)
  have hnone : ∀ p : UInt32 → Bool, p kIndexEmpty = false →
      t.emptied.slots.countP p = 0 := by
    intro p hp
    apply List.countP_eq_zero.mpr
    intro entry hentry
    rw [List.eq_of_mem_replicate hentry, hp]
    simp
  constructor
  · simp
  · simp
  · simp
  · intro s entry hentry hoccupied
    rw [hword s entry hentry] at hoccupied
    cases hoccupied
  · intro s s' entry hentry _ hoccupied
    rw [hword s entry hentry] at hoccupied
    cases hoccupied
  · simp
  · rfl
  · exact hnone _ rfl
  · exact (hnone (· == kIndexDeleted) (beq_false_of_ne deleted_ne_empty.symm)).symm

theorem Alike.trans {t t' t'' : TaskIndex} (h : t.Alike t') (h' : t'.Alike t'') :
    t.Alike t'' :=
  ⟨h'.records.trans h.records, h'.length.trans h.length⟩

/-- The records that a rebuild indexes. -/
def Rest (t : TaskIndex) (retired : UInt64) (live : Finset ℕ) : Prop :=
  ∀ (i : ℕ) (name : UInt64), t.records[i]? = some name → (i ∈ live ↔ name ≠ 0 ∧ name ≠ retired)

/-- One turn of a rebuild: the table has the records before `i`, and gets the one at `i` if it is
one of the rest. -/
theorem Indexed.reindex (h : t.Indexed live) (hroom : live.card < t.slots.length)
    (hrest : t.Rest id live) {i : ℕ} (hi : i < t.records.length) {u : TaskIndex}
    (hindexed : u.Indexed (live.filter (· < i))) (halike : t.Alike u) :
    ∃ u', TaskIndex.reindex id i u = Except.ok u' ∧ u'.Indexed (live.filter (· < i + 1)) ∧
      t.Alike u' := by
  have hname : t.records[i]? = some t.records[i] := List.getElem?_eq_getElem hi
  have hsame : u.records[i]? = some t.records[i] := by rw [halike.records, hname]
  rw [TaskIndex.reindex, fetch_of_lt hsame, ok_bind]
  by_cases hmem : i ∈ live
  · have hboth := (hrest i _ hname).mp hmem
    have hnew : i ∉ live.filter (· < i) := by simp
    have hnext : live.filter (· < i + 1) = insert i (live.filter (· < i)) := by
      ext j
      simp only [Finset.mem_filter, Finset.mem_insert, Nat.lt_succ_iff_lt_or_eq]
      constructor
      · rintro ⟨hj, hlt | heq⟩
        · exact Or.inr ⟨hj, hlt⟩
        · exact Or.inl heq
      · rintro (rfl | ⟨hj, hlt⟩)
        · exact ⟨hmem, Or.inr rfl⟩
        · exact ⟨hj, Or.inl hlt⟩
    -- no record before this one has its id
    have hfresh : ∀ j ∈ live.filter (· < i), u.records[j]? ≠ some t.records[i] := by
      intro j hj heq
      obtain ⟨hj, hlt⟩ := Finset.mem_filter.mp hj
      rw [halike.records] at heq
      exact hlt.ne (h.distinct j hj i hmem (heq.trans hname.symm))
    have hcard : (live.filter (· < i)).card < u.slots.length := by
      rw [halike.length]
      exact (Finset.card_filter_le _ _).trans_lt hroom
    obtain ⟨u', hindex, hindexed', halike'⟩ := hindexed.indexTask_fresh hcard hsame hboth.1
      hnew hfresh (h.bound i hmem)
    refine ⟨u', ?_, ?_, halike.trans halike'⟩
    · rw [if_pos hboth, hindex]
      rfl
    · rw [hnext]
      exact hindexed'
  · have hnext : live.filter (· < i + 1) = live.filter (· < i) := by
      apply Finset.filter_congr
      intro j hj
      have hne : j ≠ i := fun heq => hmem (heq ▸ hj)
      omega
    refine ⟨u, ?_, ?_, halike⟩
    · rw [if_neg (fun hboth => hmem ((hrest i _ hname).mpr hboth))]
      rfl
    · rw [hnext]
      exact hindexed

/-- **A rebuild does not abort**: it indexes the records one by one. -/
theorem Indexed.rebuild (h : t.Indexed live) (hroom : live.card < t.slots.length)
    (hrest : t.Rest id live) :
    ∃ t', t.rebuild id = Except.ok t' ∧ t'.Indexed live ∧ t.Alike t' := by
  have hlt : ∀ i ∈ live, i < t.records.length := by
    intro i hi
    obtain ⟨name, hname, -⟩ := h.named i hi
    exact (List.getElem?_eq_some_iff.mp hname).1
  have hstart : t.emptied.Indexed (live.filter (· < 0)) ∧ t.Alike t.emptied := by
    rw [Finset.filter_false_of_mem (fun i _ => Nat.not_lt_zero i)]
    exact ⟨emptied_indexed t, rfl, List.length_replicate⟩
  have hstep : ∀ i u, i < t.records.length → u.Indexed (live.filter (· < i)) ∧ t.Alike u →
      ∃ u', TaskIndex.reindex id i u = Except.ok u' ∧
        u'.Indexed (live.filter (· < i + 1)) ∧ t.Alike u' := by
    rintro i u hi ⟨hindexed, halike⟩
    exact h.reindex hroom hrest hi hindexed halike
  obtain ⟨t', hloop, hindexed, halike⟩ := forRange_returns _ hstart hstep
  refine ⟨t', hloop, ?_, halike⟩
  rwa [Finset.filter_true_of_mem hlt] at hindexed

/-- What follows a deletion keeps the records of the table. -/
theorem Indexed.tidy (h : t.Indexed live) (hroom : live.card < t.slots.length)
    (hrest : t.Rest id live) :
    ∃ t', t.tidy id = Except.ok t' ∧ t'.Indexed live ∧ t.Alike t' := by
  rw [TaskIndex.tidy]
  by_cases hsize : t.size = 0
  · have hnone : live = ∅ := Finset.card_eq_zero.mp (h.size_eq.symm.trans hsize)
    rw [if_pos hsize, hnone]
    exact ⟨_, rfl, emptied_indexed t, rfl, List.length_replicate⟩
  · rw [if_neg hsize]
    by_cases hmany : t.deleted > t.size ∧ t.deleted ≥ (t.slots.length + 3) / 4
    · rw [if_pos hmany]
      exact h.rebuild hroom hrest
    · rw [if_neg hmany]
      exact ⟨t, rfl, h, rfl, rfl⟩

/-- The search of `ForgetTask` ends at the word of the record. -/
theorem Indexed.forgetLoop_live (h : t.Indexed live) (hmem : index ∈ live)
    (hid : t.records[index]? = some id) {distance : ℕ} (hreach : t.Reaches id index distance)
    {probes d : ℕ} (hd : d ≤ distance) (hprobes : probes + d = t.slots.length) :
    t.forgetLoop id probes (t.slotAt id d) =
      (t.write (t.slotAt id distance) kIndexDeleted (t.size - 1) (t.deleted + 1)).tidy id := by
  have hlt := hreach.lt
  induction probes generalizing d with
  | zero => omega
  | succ probes ih =>
      rcases Nat.eq_or_lt_of_le hd with rfl | hbefore
      · have hword := indexOccupied_iff.mp (occupied_word (h.bound index hmem))
        have hslots := (List.getElem?_eq_some_iff.mp hreach.found).1
        rw [forgetLoop, fetch_of_lt hreach.found, ok_bind, if_neg hword.1,
          if_pos (h.matches_word hmem hid hreach), assign_of_lt hslots, ok_bind]
        rfl
      · obtain ⟨entry, hentry, hne⟩ := hreach.passed d hbefore
        rw [forgetLoop, fetch_of_lt hentry, ok_bind, if_neg hne,
          if_neg (Bool.eq_false_iff.mp (h.matches_before hmem hid hreach hbefore hentry)),
          slotAt_succ]
        exact ih hbefore (by omega)

/-- **`ForgetTask` forgets the record** and no other. -/
theorem Indexed.forgetTask (h : t.Indexed live) (hroom : live.card < t.slots.length)
    (hmem : index ∈ live) (hid : t.records[index]? = some id)
    (hrest : t.Rest id (live.erase index)) :
    ∃ t', t.forgetTask id = Except.ok t' ∧ t'.Indexed (live.erase index) ∧ t.Alike t' := by
  obtain ⟨distance, hreach⟩ := h.reached index hmem id hid
  obtain ⟨name, hname, hne⟩ := h.named index hmem
  rw [hid] at hname
  cases hname
  have hslots : t.slots ≠ [] := List.length_pos_iff.mp (Nat.zero_lt_of_lt hreach.lt)
  have hcard : (live.erase index).card < t.slots.length :=
    (Finset.card_erase_le).trans_lt hroom
  have hdrop := h.drop hmem hreach.found
  obtain ⟨t', htidy, hindexed, halike⟩ := hdrop.tidy (by rwa [length_write]) hrest
  refine ⟨t', ?_, hindexed, halike.records, halike.length.trans length_write⟩
  rw [TaskIndex.forgetTask, if_neg (by simp [hne, hslots]), slotAt_zero,
    h.forgetLoop_live hmem hid hreach (Nat.zero_le _) rfl, htidy]

/-! ### The records -/

theorem mem_liveSlots {records : List UInt64} {i : ℕ} :
    i ∈ liveSlots records ↔ ∃ id, records[i]? = some id ∧ id ≠ 0 := by
  rw [liveSlots, Finset.mem_filter, Finset.mem_range]
  constructor
  · rintro ⟨hlt, hne⟩
    rw [List.getElem?_eq_getElem hlt] at hne ⊢
    exact ⟨_, rfl, hne⟩
  · rintro ⟨id, hid, hne⟩
    refine ⟨(List.getElem?_eq_some_iff.mp hid).1, ?_⟩
    rwa [hid]

/-- The record of the slot has the id. -/
theorem place_self {records : List UInt64} (hindex : index ≤ records.length) :
    (place records index id)[index]? = some id := by
  rw [place]
  split_ifs with hlt
  · exact List.getElem?_set_self hlt
  · rw [Nat.le_antisymm hindex (Nat.le_of_not_lt hlt), List.getElem?_concat_length]

/-- The other records stay as they are. -/
theorem place_ne {records : List UInt64} (hindex : index ≤ records.length) {i : ℕ}
    (hne : index ≠ i) : (place records index id)[i]? = records[i]? := by
  rw [place]
  split_ifs with hlt
  · exact List.getElem?_set_ne hne
  · have hend : index = records.length := Nat.le_antisymm hindex (Nat.le_of_not_lt hlt)
    rcases Nat.lt_or_ge i records.length with hi | hi
    · exact List.getElem?_append_left hi
    · rw [List.getElem?_eq_none hi, List.getElem?_eq_none]
      rw [List.length_append, List.length_singleton]
      omega

theorem liveSlots_place {records : List UInt64} (hindex : index ≤ records.length) (hid : id ≠ 0) :
    liveSlots (place records index id) = insert index (liveSlots records) := by
  ext i
  rw [Finset.mem_insert, mem_liveSlots, mem_liveSlots]
  by_cases hi : index = i
  · subst hi
    simp [place_self hindex, hid]
  · rw [place_ne hindex hi]
    simp [Ne.symm hi]

theorem liveSlots_clear {records : List UInt64} (hindex : index < records.length) :
    liveSlots (records.set index 0) = (liveSlots records).erase index := by
  ext i
  rw [Finset.mem_erase, mem_liveSlots, mem_liveSlots]
  by_cases hi : index = i
  · subst hi
    simp [List.getElem?_set_self hindex]
  · rw [List.getElem?_set_ne hi]
    simp [Ne.symm hi]

/-- A table does not depend on the records it does not have. -/
theorem Indexed.with_records (h : t.Indexed live) {records : List UInt64}
    (hsame : ∀ i ∈ live, records[i]? = t.records[i]?) :
    ({ t with records := records } : TaskIndex).Indexed live where
  bound := h.bound
  named i hi := by
    rw [hsame i hi]
    exact h.named i hi
  distinct i hi j hj heq := by
    change records[i]? = records[j]? at heq
    rw [hsame i hi, hsame j hj] at heq
    exact h.distinct i hi j hj heq
  sound := h.sound
  unique := h.unique
  reached i hi name hname := by
    change records[i]? = some name at hname
    rw [hsame i hi] at hname
    obtain ⟨d, hreach⟩ := h.reached i hi name hname
    exact ⟨d, hreach.lt, hreach.found, hreach.passed⟩
  size_eq := h.size_eq
  occupied_eq := h.occupied_eq
  deleted_eq := h.deleted_eq

/-! ### One operation -/

/-- The table has the live records, and they are no more than it was sized for. -/
structure Sound (capacity : ℕ) (t : TaskIndex) : Prop where
  indexed : t.Indexed (liveSlots t.records)
  length : t.slots.length = capacity * 2 + 1
  room : (liveSlots t.records).card ≤ capacity

theorem sound_configure (capacity : ℕ) : (configure capacity).Sound capacity where
  indexed := by
    have h := emptied_indexed (configure capacity)
    rwa [show (configure capacity).emptied = configure capacity by
      simp [emptied, configure]] at h
  length := List.length_replicate
  room := Nat.zero_le _

theorem Sound.enqueuePreparedSpawnTask (h : t.Sound capacity)
    (hadmissible : Admissible capacity t.records (.spawn id index)) :
    ∃ t', t.enqueuePreparedSpawnTask id index = Except.ok t' ∧
      t'.records = place t.records index id ∧ t'.Sound capacity := by
  obtain ⟨hid, hnew, hindex, hfree, hbound, hroom⟩ := hadmissible
  have hdead : index ∉ liveSlots t.records := by
    rw [mem_liveSlots]
    rintro ⟨name, hname, hne⟩
    rw [hname] at hfree
    exact hne hfree
  have hne : ∀ i ∈ liveSlots t.records, index ≠ i := fun i hi heq => hdead (heq ▸ hi)
  have hsame : ∀ i ∈ liveSlots t.records, (place t.records index id)[i]? = t.records[i]? :=
    fun i hi => place_ne hindex (hne i hi)
  have hplaced := h.indexed.with_records hsame
  have hfresh : ∀ i ∈ liveSlots t.records, (place t.records index id)[i]? ≠ some id := by
    intro i hi heq
    rw [hsame i hi] at heq
    exact hnew (List.mem_of_getElem? heq)
  have hcard : (liveSlots t.records).card < t.slots.length := by
    have := h.length
    omega
  obtain ⟨t', hindexTask, hindexed, halike⟩ :=
    hplaced.indexTask_fresh hcard (place_self hindex) hid hdead hfresh hbound
  have hrecords : t'.records = place t.records index id := halike.records
  refine ⟨t', ?_, hrecords, ?_, halike.length.trans h.length, ?_⟩
  · rw [TaskIndex.enqueuePreparedSpawnTask, hindexTask, ok_bind]
    rfl
  · rw [hrecords, liveSlots_place hindex hid]
    exact hindexed
  · rw [hrecords, liveSlots_place hindex hid]
    exact (Finset.card_insert_le _ _).trans hroom

theorem Sound.retireTaskRecord (h : t.Sound capacity) (hindex : index < t.records.length) :
    ∃ t', t.retireTaskRecord index = Except.ok t' ∧ t'.records = t.records.set index 0 ∧
      t'.Sound capacity := by
  have hname : t.records[index]? = some t.records[index] := List.getElem?_eq_getElem hindex
  rw [TaskIndex.retireTaskRecord, fetch_of_lt hname, ok_bind]
  by_cases hzero : t.records[index] = 0
  · -- the record was retired before
    refine ⟨t, ?_, ?_, h⟩
    · rw [if_pos hzero]
      rfl
    · rw [← hzero, List.set_getElem_self]
  · have hmem : index ∈ liveSlots t.records := mem_liveSlots.mpr ⟨_, hname, hzero⟩
    have hrest : t.Rest t.records[index] ((liveSlots t.records).erase index) := by
      intro i name hi
      rw [Finset.mem_erase, mem_liveSlots]
      constructor
      · rintro ⟨hne, other, hother, hlive⟩
        rw [hi] at hother
        cases hother
        refine ⟨hlive, ?_⟩
        rintro rfl
        exact hne (h.indexed.distinct i (mem_liveSlots.mpr ⟨_, hi, hlive⟩) index hmem
          (hi.trans hname.symm))
      · rintro ⟨hlive, hother⟩
        refine ⟨?_, name, hi, hlive⟩
        rintro rfl
        rw [hname] at hi
        exact hother (Option.some.inj hi).symm
    have hcard : (liveSlots t.records).card < t.slots.length := by
      have := h.length
      have := h.room
      omega
    obtain ⟨t', hforget, hindexed, halike⟩ := h.indexed.forgetTask hcard hmem hname hrest
    have hrecords : t'.records.set index 0 = t.records.set index 0 := by rw [halike.records]
    refine ⟨{ t' with records := t'.records.set index 0 }, ?_, hrecords, ?_,
      halike.length.trans h.length, ?_⟩
    · rw [if_neg hzero, hforget, ok_bind, assign_of_lt (by rwa [halike.records]), ok_bind]
      rfl
    · show Indexed _ (liveSlots (t'.records.set index 0))
      rw [hrecords, liveSlots_clear hindex, ← hrecords]
      apply hindexed.with_records
      intro i hi
      exact List.getElem?_set_ne (Finset.ne_of_mem_erase hi).symm
    · show (liveSlots (t'.records.set index 0)).card ≤ capacity
      rw [hrecords, liveSlots_clear hindex]
      exact (Finset.card_erase_le).trans h.room

/-- One admissible operation is carried out. -/
theorem Sound.step (h : t.Sound capacity) {operation : Operation}
    (hadmissible : Admissible capacity t.records operation) :
    ∃ t', t.step operation = Except.ok t' ∧ t'.records = recordsStep t.records operation ∧
      t'.Sound capacity := by
  cases operation with
  | spawn id index => exact h.enqueuePreparedSpawnTask hadmissible
  | retire index => exact h.retireTaskRecord hadmissible

/-! ### Runs -/

theorem Sound.run (h : t.Sound capacity) {operations : List Operation}
    (hadmissible : AdmissibleRun capacity t.records operations) :
    ∃ t', t.run operations = Except.ok t' ∧ t'.records = operations.foldl recordsStep t.records ∧
      t'.Sound capacity := by
  induction operations generalizing t with
  | nil => exact ⟨t, rfl, rfl, h⟩
  | cons operation operations ih =>
      obtain ⟨hfirst, hlater⟩ := hadmissible
      obtain ⟨u, hstep, hrecords, hsound⟩ := h.step hfirst
      rw [← hrecords] at hlater
      obtain ⟨t', hrun, hlast, hsound'⟩ := ih hsound hlater
      refine ⟨t', ?_, ?_, hsound'⟩
      · rw [TaskIndex.run, hstep, ok_bind, hrun]
      · rw [hlast, hrecords, List.foldl_cons]

/-- **The task index over a run.**  Every admission is indexed and no rebuild aborts; afterwards
the index finds every live id in the slot of its record and no other id, and its counters are the
numbers of live and of deleted entries. -/
theorem taskIndex_run (capacity : ℕ) (operations : List Operation)
    (hadmissible : AdmissibleRun capacity [] operations) :
    ∃ t, (configure capacity).run operations = Except.ok t ∧
      t.records = operations.foldl recordsStep [] ∧
      (∀ index id, t.records[index]? = some id → id ≠ 0 →
        t.indexFor id = Except.ok (some index)) ∧
      (∀ id, id = 0 ∨ id ∉ t.records → t.indexFor id = Except.ok none) ∧
      t.size = (liveSlots t.records).card ∧ t.size = t.slots.countP indexOccupied ∧
      t.deleted = t.slots.count kIndexDeleted := by
  obtain ⟨t, hrun, hrecords, hsound⟩ := (sound_configure capacity).run hadmissible
  have h := hsound.indexed
  refine ⟨t, hrun, hrecords, ?_, ?_, h.size_eq, h.size_eq.trans h.occupied_eq.symm,
    h.deleted_eq⟩
  · intro index id hid hne
    exact h.indexFor_live (mem_liveSlots.mpr ⟨id, hid, hne⟩) hid
  · intro id hnone
    apply h.indexFor_fresh
    intro i hi hid
    rcases hnone with rfl | hnot
    · obtain ⟨name, hname, hne⟩ := mem_liveSlots.mp hi
      rw [hid] at hname
      exact hne (Option.some.inj hname).symm
    · exact hnot (List.mem_of_getElem? hid)

/-- Two ids with one home, and a slot that is used again. -/
theorem taskIndex_run_collision :
    ∃ t, (configure 2).run [.spawn 7 0, .spawn 12 1, .retire 0, .spawn 3 0] = Except.ok t ∧
      t.indexFor 12 = Except.ok (some 1) ∧ t.indexFor 7 = Except.ok none ∧ t.size = 2 := by
  obtain ⟨t, hrun, hrecords, hlive, hnone, hsize, -, -⟩ :=
    taskIndex_run 2 [.spawn 7 0, .spawn 12 1, .retire 0, .spawn 3 0] (by decide)
  have hids : t.records = [3, 12] := hrecords
  refine ⟨t, hrun, hlive 1 12 ?_ (by decide), hnone 7 (Or.inr ?_), ?_⟩
  · rw [hids]
    rfl
  · rw [hids]
    decide
  · rw [hsize, hids]
    decide

end RunD.TaskIndex
