/-
What the table of a task index holds.

`Indexed t live` says that the table has one word for each record of `live` and
no other, and that every word can be reached: on the way from the home of the id
to the word no slot is empty.  Indexing a new record fills the first slot on its
way that is deleted or empty, and forgetting one leaves a deleted slot behind;
both keep this (`Indexed.put`, `Indexed.drop`).  Building the table anew indexes
the records one by one, and so it cannot fail as long as the records are fewer
than the slots.
-/
import RunD.ProbeTable
import RunD.TaskIndex

namespace RunD.TaskIndex

variable {t : TaskIndex} {live : Finset ℕ} {id : UInt64} {index : ℕ}

/-! ### Words -/

/-- The word of a record. -/
abbrev word (index : ℕ) : UInt32 := UInt32.ofNat (index + 1)

theorem toNat_word (hbound : index < (kIndexDeleted - 1).toNat) :
    (word index).toNat = index + 1 := by
  have hmax : (kIndexDeleted - 1).toNat = 4294967294 := rfl
  rw [UInt32.toNat_ofNat', Nat.mod_eq_of_lt]
  omega

theorem indexOccupied_iff {entry : UInt32} :
    indexOccupied entry = true ↔ entry ≠ kIndexEmpty ∧ entry ≠ kIndexDeleted := by
  simp [indexOccupied]

theorem occupied_word (hbound : index < (kIndexDeleted - 1).toNat) :
    indexOccupied (word index) = true := by
  have hmax : (kIndexDeleted - 1).toNat = 4294967294 := rfl
  have hword := toNat_word hbound
  rw [indexOccupied_iff]
  constructor
  · intro h
    rw [h] at hword
    exact absurd hword (by show (0 : ℕ) ≠ _; omega)
  · intro h
    rw [h] at hword
    exact absurd hword (by show (4294967295 : ℕ) ≠ _; omega)

theorem word_inj {i j : ℕ} (hi : i < (kIndexDeleted - 1).toNat)
    (hj : j < (kIndexDeleted - 1).toNat) (h : word i = word j) : i = j := by
  have hnat := congrArg UInt32.toNat h
  rw [toNat_word hi, toNat_word hj] at hnat
  exact Nat.succ.inj hnat

theorem not_occupied_deleted : ¬ indexOccupied kIndexDeleted = true := by decide

theorem deleted_ne_empty : kIndexDeleted ≠ kIndexEmpty := by decide

/-! ### The way of an id -/

/-- The slot that is met after `distance` others. -/
def slotAt (t : TaskIndex) (id : UInt64) (distance : ℕ) : ℕ :=
  (id.toNat + distance) % t.slots.length

/-- No slot is empty before `distance`. -/
def Passed (t : TaskIndex) (id : UInt64) (distance : ℕ) : Prop :=
  ∀ j < distance, ∃ entry, t.slots[t.slotAt id j]? = some entry ∧ entry ≠ kIndexEmpty

/-- Behind slots that are not empty stands the word of a record. -/
structure Reaches (t : TaskIndex) (id : UInt64) (index distance : ℕ) : Prop where
  lt : distance < t.slots.length
  found : t.slots[t.slotAt id distance]? = some (word index)
  passed : t.Passed id distance

theorem slotAt_succ (t : TaskIndex) (id : UInt64) (j : ℕ) :
    (t.slotAt id j + 1) % t.slots.length = t.slotAt id (j + 1) := by
  rw [slotAt, slotAt, Nat.mod_add_mod, Nat.add_assoc]

theorem slotAt_lt (hslots : 0 < t.slots.length) (id : UInt64) (j : ℕ) :
    t.slotAt id j < t.slots.length := Nat.mod_lt _ hslots

theorem entry_at (hslots : 0 < t.slots.length) (id : UInt64) (j : ℕ) :
    ∃ entry, t.slots[t.slotAt id j]? = some entry :=
  ⟨_, List.getElem?_eq_getElem (slotAt_lt hslots id j)⟩

/-- Every slot is on the way. -/
theorem exists_slotAt (id : UInt64) {s : ℕ} (hs : s < t.slots.length) :
    ∃ j < t.slots.length, t.slotAt id j = s := by
  have hpos := Nat.zero_lt_of_lt hs
  obtain ⟨j, hj, heq⟩ := exists_probe (Nat.mod_lt id.toNat hpos) hs
  refine ⟨j, hj, ?_⟩
  rw [slotAt, ← heq, Nat.mod_add_mod]

theorem slotAt_inj {j k : ℕ} (hj : j < t.slots.length) (hk : k < t.slots.length)
    (h : t.slotAt id j = t.slotAt id k) : j = k := probe_inj hj hk h

/-! ### The invariant -/

/-- The table has the records of `live`. -/
structure Indexed (t : TaskIndex) (live : Finset ℕ) : Prop where
  bound : ∀ i ∈ live, i < (kIndexDeleted - 1).toNat
  named : ∀ i ∈ live, ∃ id, t.records[i]? = some id ∧ id ≠ 0
  distinct : ∀ i ∈ live, ∀ j ∈ live, t.records[i]? = t.records[j]? → i = j
  sound : ∀ (s : ℕ) (entry : UInt32), t.slots[s]? = some entry → indexOccupied entry = true →
    ∃ i ∈ live, entry = word i
  unique : ∀ (s s' : ℕ) (entry : UInt32), t.slots[s]? = some entry → t.slots[s']? = some entry →
    indexOccupied entry = true → s = s'
  reached : ∀ i ∈ live, ∀ id, t.records[i]? = some id → ∃ distance, t.Reaches id i distance
  size_eq : t.size = live.card
  occupied_eq : t.slots.countP indexOccupied = live.card
  deleted_eq : t.deleted = t.slots.count kIndexDeleted

namespace Indexed

/-- A word that matches is the word of the record with the id. -/
theorem matches_iff (h : t.Indexed live) {s : ℕ} {entry : UInt32}
    (hentry : t.slots[s]? = some entry) :
    t.indexMatches entry id = true ↔ ∃ i ∈ live, entry = word i ∧ t.records[i]? = some id := by
  rw [indexMatches, Bool.and_eq_true, beq_iff_eq]
  constructor
  · rintro ⟨hoccupied, hid⟩
    obtain ⟨i, hi, rfl⟩ := h.sound s entry hentry hoccupied
    rw [toNat_word (h.bound i hi), Nat.add_sub_cancel] at hid
    exact ⟨i, hi, rfl, hid⟩
  · rintro ⟨i, hi, rfl, hid⟩
    rw [toNat_word (h.bound i hi), Nat.add_sub_cancel]
    exact ⟨occupied_word (h.bound i hi), hid⟩

/-- Not every slot is taken as long as the records are fewer than the slots. -/
theorem exists_vacant (h : t.Indexed live) (hroom : live.card < t.slots.length) (id : UInt64) :
    ∃ j < t.slots.length, ∃ entry, t.slots[t.slotAt id j]? = some entry ∧
      indexOccupied entry = false := by
  by_contra hall
  have hevery : ∀ entry ∈ t.slots, indexOccupied entry = true := by
    intro entry hentry
    by_contra hnot
    obtain ⟨s, hs⟩ := List.mem_iff_getElem?.mp hentry
    obtain ⟨j, hj, hslot⟩ := exists_slotAt (t := t) id (List.getElem?_eq_some_iff.mp hs).1
    exact hall ⟨j, hj, entry, by rw [hslot]; exact hs, Bool.eq_false_iff.mpr hnot⟩
  have hcount := List.countP_eq_length.mpr hevery
  rw [h.occupied_eq] at hcount
  omega

end Indexed

/-! ### Writing a slot -/

/-- One slot of the table is written. -/
def write (t : TaskIndex) (s : ℕ) (entry : UInt32) (size deleted : ℕ) : TaskIndex :=
  { t with slots := t.slots.set s entry, size := size, deleted := deleted }

variable {s size deleted distance : ℕ} {old entry : UInt32}

@[simp] theorem slotAt_write (id : UInt64) (j : ℕ) :
    (t.write s entry size deleted).slotAt id j = t.slotAt id j := by
  show _ % (t.slots.set s entry).length = _
  rw [List.length_set]
  rfl

@[simp] theorem length_write : (t.write s entry size deleted).slots.length = t.slots.length :=
  List.length_set

theorem get_write_self (hs : s < t.slots.length) :
    (t.write s entry size deleted).slots[s]? = some entry := List.getElem?_set_self hs

theorem get_write_ne {s' : ℕ} (hne : s ≠ s') :
    (t.write s entry size deleted).slots[s']? = t.slots[s']? := List.getElem?_set_ne hne

/-- What is found after a slot is written: the new word there, the old ones elsewhere. -/
theorem get_write {s' : ℕ} {found : UInt32}
    (h : (t.write s entry size deleted).slots[s']? = some found) :
    (s = s' ∧ found = entry) ∨ (s ≠ s' ∧ t.slots[s']? = some found) := by
  by_cases hs : s = s'
  · subst hs
    have hlt := (List.getElem?_eq_some_iff.mp h).1
    rw [length_write] at hlt
    rw [get_write_self hlt] at h
    exact Or.inl ⟨rfl, (Option.some.inj h).symm⟩
  · rw [get_write_ne hs] at h
    exact Or.inr ⟨hs, h⟩

/-- A way stays passed when no empty word is written. -/
theorem Passed.write (h : t.Passed id distance) (hentry : entry ≠ kIndexEmpty) :
    (t.write s entry size deleted).Passed id distance := by
  intro j hj
  obtain ⟨found, hfound, hne⟩ := h j hj
  rw [slotAt_write]
  by_cases hs : s = t.slotAt id j
  · refine ⟨entry, ?_, hentry⟩
    rw [hs]
    exact get_write_self (List.getElem?_eq_some_iff.mp hfound).1
  · exact ⟨found, (get_write_ne hs).trans hfound, hne⟩

/-- A record stays reachable when another slot is written. -/
theorem Reaches.write {i : ℕ} (h : t.Reaches id i distance) (hentry : entry ≠ kIndexEmpty)
    (hs : s ≠ t.slotAt id distance) : (t.write s entry size deleted).Reaches id i distance where
  lt := by
    rw [length_write]
    exact h.lt
  found := by
    rw [slotAt_write]
    exact (get_write_ne hs).trans h.found
  passed := h.passed.write hentry

theorem countP_write (p : UInt32 → Bool) (hold : t.slots[s]? = some old) :
    (t.write s entry size deleted).slots.countP p =
      t.slots.countP p - (if p old then 1 else 0) + if p entry then 1 else 0 := by
  obtain ⟨hs, rfl⟩ := List.getElem?_eq_some_iff.mp hold
  exact List.countP_set hs

namespace Indexed

/-- **A record is indexed** in a slot that is not taken. -/
theorem put (h : t.Indexed live) (hid : t.records[index]? = some id) (hne : id ≠ 0)
    (hnew : index ∉ live) (hfresh : ∀ i ∈ live, t.records[i]? ≠ some id)
    (hbound : index < (kIndexDeleted - 1).toNat) (hlt : distance < t.slots.length)
    (hold : t.slots[t.slotAt id distance]? = some old) (hvacant : indexOccupied old = false)
    (hpassed : t.Passed id distance) :
    (t.write (t.slotAt id distance) (word index) (t.size + 1)
      (if old = kIndexDeleted then t.deleted - 1 else t.deleted)).Indexed (insert index live) := by
  have hword := occupied_word hbound
  obtain ⟨hwordEmpty, hwordDeleted⟩ := indexOccupied_iff.mp hword
  have hs := (List.getElem?_eq_some_iff.mp hold).1
  constructor
  · intro i hi
    rcases Finset.mem_insert.mp hi with rfl | hi
    · exact hbound
    · exact h.bound i hi
  · intro i hi
    rcases Finset.mem_insert.mp hi with rfl | hi
    · exact ⟨id, hid, hne⟩
    · exact h.named i hi
  · intro i hi j hj hsame
    change t.records[i]? = t.records[j]? at hsame
    rcases Finset.mem_insert.mp hi with hi' | hi'
    · rcases Finset.mem_insert.mp hj with hj' | hj'
      · rw [hi', hj']
      · rw [hi', hid] at hsame
        exact absurd hsame.symm (hfresh j hj')
    · rcases Finset.mem_insert.mp hj with hj' | hj'
      · rw [hj', hid] at hsame
        exact absurd hsame (hfresh i hi')
      · exact h.distinct i hi' j hj' hsame
  · intro s entry hentry hoccupied
    rcases get_write hentry with ⟨-, rfl⟩ | ⟨-, hentry'⟩
    · exact ⟨index, Finset.mem_insert_self .., rfl⟩
    · obtain ⟨i, hi, heq⟩ := h.sound s entry hentry' hoccupied
      exact ⟨i, Finset.mem_insert_of_mem hi, heq⟩
  · -- the new word is in one slot only
    have hother : ∀ s : ℕ, t.slots[s]? ≠ some (word index) := by
      intro s hs
      obtain ⟨i, hi, heq⟩ := h.sound s _ hs hword
      exact hnew (word_inj hbound (h.bound i hi) heq ▸ hi)
    intro s s' entry hentry hentry' hoccupied
    rcases get_write hentry with ⟨rfl, rfl⟩ | ⟨-, hentry⟩
    · rcases get_write hentry' with ⟨rfl, -⟩ | ⟨-, hentry'⟩
      · rfl
      · exact absurd hentry' (hother s')
    · rcases get_write hentry' with ⟨-, rfl⟩ | ⟨-, hentry'⟩
      · exact absurd hentry (hother s)
      · exact h.unique s s' entry hentry hentry' hoccupied
  · intro i hi name hname
    rcases Finset.mem_insert.mp hi with rfl | hi
    · have hsame : name = id := Option.some.inj (hname.symm.trans hid)
      subst hsame
      refine ⟨distance, by rw [length_write]; exact hlt, ?_, hpassed.write hwordEmpty⟩
      rw [slotAt_write]
      exact get_write_self hs
    · obtain ⟨d, hreach⟩ := h.reached i hi name hname
      refine ⟨d, hreach.write hwordEmpty ?_⟩
      intro heq
      have hfound := hreach.found
      rw [← heq, hold] at hfound
      rw [Option.some.inj hfound, occupied_word (h.bound i hi)] at hvacant
      cases hvacant
  · rw [Finset.card_insert_of_notMem hnew]
    exact congrArg (· + 1) h.size_eq
  · rw [countP_write _ hold, hvacant, hword, Finset.card_insert_of_notMem hnew, h.occupied_eq]
    rfl
  · rw [List.count, countP_write _ hold]
    show (if old = kIndexDeleted then t.deleted - 1 else t.deleted) = _
    have hfresh' : (word index == kIndexDeleted) = false := beq_false_of_ne hwordDeleted
    rw [hfresh', h.deleted_eq, List.count]
    by_cases hdeleted : old = kIndexDeleted
    · simp [hdeleted]
    · simp [hdeleted]

/-- **A record is forgotten**: its word is deleted. -/
theorem drop (h : t.Indexed live) (hmem : index ∈ live) (hs : t.slots[s]? = some (word index)) :
    (t.write s kIndexDeleted (t.size - 1) (t.deleted + 1)).Indexed (live.erase index) := by
  have hword := occupied_word (h.bound index hmem)
  have hnot : indexOccupied kIndexDeleted = false := Bool.eq_false_iff.mpr not_occupied_deleted
  have hcard := Finset.card_erase_of_mem hmem
  constructor
  · exact fun i hi => h.bound i (Finset.mem_of_mem_erase hi)
  · exact fun i hi => h.named i (Finset.mem_of_mem_erase hi)
  · intro i hi j hj hsame
    exact h.distinct i (Finset.mem_of_mem_erase hi) j (Finset.mem_of_mem_erase hj) hsame
  · intro s' entry hentry hoccupied
    rcases get_write hentry with ⟨-, rfl⟩ | ⟨hne, hentry⟩
    · exact absurd hoccupied not_occupied_deleted
    · obtain ⟨i, hi, rfl⟩ := h.sound s' entry hentry hoccupied
      refine ⟨i, Finset.mem_erase.mpr ⟨?_, hi⟩, rfl⟩
      rintro rfl
      exact hne (h.unique s s' _ hs hentry hword)
  · intro s₁ s₂ entry hentry₁ hentry₂ hoccupied
    rcases get_write hentry₁ with ⟨-, rfl⟩ | ⟨-, hentry₁⟩
    · exact absurd hoccupied not_occupied_deleted
    · rcases get_write hentry₂ with ⟨-, rfl⟩ | ⟨-, hentry₂⟩
      · exact absurd hoccupied not_occupied_deleted
      · exact h.unique s₁ s₂ entry hentry₁ hentry₂ hoccupied
  · intro i hi name hname
    obtain ⟨hne, hi⟩ := Finset.mem_erase.mp hi
    obtain ⟨d, hreach⟩ := h.reached i hi name hname
    refine ⟨d, hreach.write deleted_ne_empty ?_⟩
    intro heq
    have hfound := hreach.found
    rw [← heq, hs] at hfound
    exact hne (word_inj (h.bound i hi) (h.bound index hmem) (Option.some.inj hfound).symm)
  · rw [hcard]
    exact congrArg (· - 1) h.size_eq
  · rw [countP_write _ hs, hword, hnot, hcard, h.occupied_eq]
    rfl
  · rw [List.count, countP_write _ hs]
    have hother : (word index == kIndexDeleted) = false :=
      beq_false_of_ne (indexOccupied_iff.mp hword).2
    show t.deleted + 1 = _
    rw [hother, h.deleted_eq, List.count]
    rfl

end Indexed

end RunD.TaskIndex
