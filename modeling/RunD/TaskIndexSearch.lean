/-
The searches of the task index.

A search for the id of a live record passes the words before the one of the
record, and none of them matches: a word that matches is a word of the record
with the id, and there is one such record and one such word.  A search for a new
id matches nowhere, so it goes on to an empty slot or around the whole table;
an indexing search then takes the first deleted slot it has met, or the empty
one.
-/
import RunD.TaskIndexTable

namespace RunD.TaskIndex

variable {t : TaskIndex} {live : Finset ℕ} {id : UInt64} {index distance s : ℕ}
  {entry : UInt32}

theorem slotAt_zero (t : TaskIndex) (id : UInt64) :
    id.toNat % t.slots.length = t.slotAt id 0 := rfl

namespace Indexed

/-- Before the word of a record nothing matches its id. -/
theorem matches_before (h : t.Indexed live) (hmem : index ∈ live)
    (hid : t.records[index]? = some id) (hreach : t.Reaches id index distance) {d : ℕ}
    (hd : d < distance) (hentry : t.slots[t.slotAt id d]? = some entry) :
    t.indexMatches entry id = false := by
  apply Bool.eq_false_iff.mpr
  intro hmatches
  obtain ⟨i, hi, rfl, hname⟩ := (h.matches_iff hentry).mp hmatches
  obtain rfl := h.distinct i hi index hmem (hname.trans hid.symm)
  have hslot := h.unique _ _ _ hentry hreach.found (occupied_word (h.bound i hi))
  exact hd.ne (slotAt_inj (hd.trans hreach.lt) hreach.lt hslot)

/-- The word of a record matches its id. -/
theorem matches_word (h : t.Indexed live) (hmem : index ∈ live)
    (hid : t.records[index]? = some id) (hreach : t.Reaches id index distance) :
    t.indexMatches (word index) id = true :=
  (h.matches_iff hreach.found).mpr ⟨index, hmem, rfl, hid⟩

/-- Nothing matches an id that no record has. -/
theorem matches_fresh (h : t.Indexed live) (hfresh : ∀ i ∈ live, t.records[i]? ≠ some id)
    (hentry : t.slots[s]? = some entry) : t.indexMatches entry id = false := by
  apply Bool.eq_false_iff.mpr
  intro hmatches
  obtain ⟨i, hi, -, hname⟩ := (h.matches_iff hentry).mp hmatches
  exact hfresh i hi hname

/-! ### Finding a record -/

/-- A search meets every slot up to the one of the record, and stops there. -/
theorem findLoop_live (h : t.Indexed live) (hmem : index ∈ live)
    (hid : t.records[index]? = some id) (hreach : t.Reaches id index distance) {probes d : ℕ}
    (hd : d ≤ distance) (hprobes : probes + d = t.slots.length) :
    t.findLoop id probes (t.slotAt id d) = Except.ok (some index) := by
  have hlt := hreach.lt
  induction probes generalizing d with
  | zero => omega
  | succ probes ih =>
      rcases Nat.eq_or_lt_of_le hd with rfl | hbefore
      · have hword := indexOccupied_iff.mp (occupied_word (h.bound index hmem))
        rw [findLoop, fetch_of_lt hreach.found, ok_bind, if_neg hword.1,
          if_pos (h.matches_word hmem hid hreach), toNat_word (h.bound index hmem),
          Nat.add_sub_cancel]
        rfl
      · obtain ⟨entry, hentry, hne⟩ := hreach.passed d hbefore
        rw [findLoop, fetch_of_lt hentry, ok_bind, if_neg hne,
          if_neg (Bool.eq_false_iff.mp (h.matches_before hmem hid hreach hbefore hentry)),
          slotAt_succ]
        exact ih hbefore (by omega)

/-- A search for an id that no record has finds nothing. -/
theorem findLoop_fresh (h : t.Indexed live) (hslots : 0 < t.slots.length)
    (hfresh : ∀ i ∈ live, t.records[i]? ≠ some id) (probes d : ℕ) :
    t.findLoop id probes (t.slotAt id d) = Except.ok none := by
  induction probes generalizing d with
  | zero => rfl
  | succ probes ih =>
      obtain ⟨entry, hentry⟩ := entry_at hslots id d
      rw [findLoop, fetch_of_lt hentry, ok_bind]
      by_cases hempty : entry = kIndexEmpty
      · rw [if_pos hempty]
        rfl
      · rw [if_neg hempty, if_neg (Bool.eq_false_iff.mp (h.matches_fresh hfresh hentry)),
          slotAt_succ]
        exact ih (d + 1)

/-- `IndexFor` returns the slot of a live record. -/
theorem indexFor_live (h : t.Indexed live) (hmem : index ∈ live)
    (hid : t.records[index]? = some id) : t.indexFor id = Except.ok (some index) := by
  obtain ⟨distance, hreach⟩ := h.reached index hmem id hid
  obtain ⟨name, hname, hne⟩ := h.named index hmem
  rw [hid] at hname
  cases hname
  have hslots : t.slots ≠ [] := List.length_pos_iff.mp (Nat.zero_lt_of_lt hreach.lt)
  rw [indexFor, if_neg (by simp [hne, hslots]), slotAt_zero]
  exact h.findLoop_live hmem hid hreach (Nat.zero_le _) rfl

/-- `IndexFor` returns the invalid index for an id that no record has. -/
theorem indexFor_fresh (h : t.Indexed live) (hfresh : ∀ i ∈ live, t.records[i]? ≠ some id) :
    t.indexFor id = Except.ok none := by
  by_cases hnone : id = 0 ∨ t.slots = []
  · rw [indexFor, if_pos hnone]
    rfl
  · rw [indexFor, if_neg hnone, slotAt_zero]
    have hslots := List.length_pos_iff.mpr (not_or.mp hnone).2
    exact h.findLoop_fresh hslots hfresh _ 0

end Indexed

/-! ### Indexing a record -/

/-- A slot that a new record may take. -/
structure Vacant (t : TaskIndex) (id : UInt64) (distance : ℕ) (old : UInt32) : Prop where
  lt : distance < t.slots.length
  found : t.slots[t.slotAt id distance]? = some old
  free : indexOccupied old = false
  passed : t.Passed id distance

/-- What an indexing search remembers of the `d` slots it has passed. -/
def Remembers (t : TaskIndex) (id : UInt64) (d : ℕ) : Option ℕ → Prop
  | none => ∀ j < d, ∃ entry, t.slots[t.slotAt id j]? = some entry ∧ indexOccupied entry = true
  | some target => ∃ distance < d, target = t.slotAt id distance ∧
      t.Vacant id distance kIndexDeleted

/-- The table with the word of a record in a vacant slot. -/
abbrev filled (t : TaskIndex) (id : UInt64) (distance : ℕ) (old encoded : UInt32) : TaskIndex :=
  t.write (t.slotAt id distance) encoded (t.size + 1)
    (if old = kIndexDeleted then t.deleted - 1 else t.deleted)

/-- An indexing search for a new id fills a slot the id can be found in. -/
theorem Indexed.indexLoop_fresh (h : t.Indexed live) (hroom : live.card < t.slots.length)
    (hfresh : ∀ i ∈ live, t.records[i]? ≠ some id) (encoded : UInt32) {probes d : ℕ}
    {firstDeleted : Option ℕ} (hprobes : probes + d = t.slots.length)
    (hpassed : t.Passed id d) (hfirst : t.Remembers id d firstDeleted) :
    ∃ distance old, t.Vacant id distance old ∧
      t.indexLoop id encoded probes (t.slotAt id d) firstDeleted =
        Except.ok (true, t.filled id distance old encoded) := by
  have hslots := Nat.zero_lt_of_lt hroom
  induction probes generalizing d firstDeleted with
  | zero =>
      obtain rfl : d = t.slots.length := by omega
      cases firstDeleted with
      | none =>
          -- the whole table was occupied
          obtain ⟨j, hj, entry, hentry, hfree⟩ := h.exists_vacant hroom id
          obtain ⟨entry', hentry', hoccupied⟩ := hfirst j hj
          rw [hentry] at hentry'
          cases hentry'
          rw [hfree] at hoccupied
          cases hoccupied
      | some target =>
          obtain ⟨distance, -, rfl, hvacant⟩ := hfirst
          refine ⟨distance, kIndexDeleted, hvacant, ?_⟩
          rw [indexLoop, assign_of_lt (slotAt_lt hslots id distance), ok_bind, filled, if_pos rfl]
          rfl
  | succ probes ih =>
      obtain ⟨entry, hentry⟩ := entry_at hslots id d
      have hnot := h.matches_fresh hfresh hentry
      rw [indexLoop, fetch_of_lt hentry, ok_bind, if_neg (Bool.eq_false_iff.mp hnot)]
      by_cases hempty : entry = kIndexEmpty
      · subst hempty
        have hskip : ¬ (kIndexEmpty = kIndexDeleted ∧ firstDeleted = none) :=
          fun hboth => deleted_ne_empty hboth.1.symm
        rw [if_pos (show kIndexEmpty = kIndexEmpty from rfl), if_neg hskip]
        cases firstDeleted with
        | none =>
            refine ⟨d, kIndexEmpty, ⟨by omega, hentry, rfl, hpassed⟩, ?_⟩
            rw [Option.getD_none, assign_of_lt (slotAt_lt hslots id d), ok_bind, filled,
              if_neg deleted_ne_empty.symm]
            rfl
        | some target =>
            obtain ⟨distance, -, rfl, hvacant⟩ := hfirst
            refine ⟨distance, kIndexDeleted, hvacant, ?_⟩
            rw [Option.getD_some, assign_of_lt (slotAt_lt hslots id distance), ok_bind, filled,
              if_pos rfl]
            rfl
      · have hpassed' : t.Passed id (d + 1) :=
          Nat.forall_lt_succ_right.mpr ⟨hpassed, entry, hentry, hempty⟩
        rw [if_neg hempty, slotAt_succ]
        apply ih (by omega) hpassed'
        by_cases hdeleted : entry = kIndexDeleted
        · subst hdeleted
          cases firstDeleted with
          | none =>
              rw [if_pos ⟨rfl, rfl⟩]
              exact ⟨d, Nat.lt_succ_self d, rfl, by omega, hentry, rfl, hpassed⟩
          | some target =>
              rw [if_neg (by simp)]
              obtain ⟨distance, hlt, hrest⟩ := hfirst
              exact ⟨distance, Nat.lt_succ_of_lt hlt, hrest⟩
        · rw [if_neg (fun hboth => hdeleted hboth.1)]
          cases firstDeleted with
          | none =>
              have hoccupied := indexOccupied_iff.mpr ⟨hempty, hdeleted⟩
              exact Nat.forall_lt_succ_right.mpr ⟨hfirst, entry, hentry, hoccupied⟩
          | some target =>
              obtain ⟨distance, hlt, hrest⟩ := hfirst
              exact ⟨distance, Nat.lt_succ_of_lt hlt, hrest⟩

/-- The tables have the same records and the same number of slots. -/
structure Alike (t t' : TaskIndex) : Prop where
  records : t'.records = t.records
  length : t'.slots.length = t.slots.length

/-- **`IndexTask` succeeds** for a new record, as long as there is room for one more. -/
theorem Indexed.indexTask_fresh (h : t.Indexed live) (hroom : live.card < t.slots.length)
    (hid : t.records[index]? = some id) (hne : id ≠ 0) (hnew : index ∉ live)
    (hfresh : ∀ i ∈ live, t.records[i]? ≠ some id) (hbound : index < (kIndexDeleted - 1).toNat) :
    ∃ t', t.indexTask id index = Except.ok (true, t') ∧ t'.Indexed (insert index live) ∧
      t.Alike t' := by
  have hslots : t.slots ≠ [] := List.length_pos_iff.mp (Nat.zero_lt_of_lt hroom)
  have hstart : ¬ (id = 0 ∨ t.slots = [] ∨ index ≥ (kIndexDeleted - 1).toNat) := by
    simp [hne, hslots, hbound]
  have hpassed : t.Passed id 0 := fun j hj => absurd hj (Nat.not_lt_zero j)
  have hfirst : t.Remembers id 0 none := fun j hj => absurd hj (Nat.not_lt_zero j)
  obtain ⟨distance, old, hvacant, hloop⟩ :=
    h.indexLoop_fresh hroom hfresh (word index) rfl hpassed hfirst
  refine ⟨t.filled id distance old (word index), ?_, ?_, rfl, length_write⟩
  · rw [indexTask, if_neg hstart]
    exact hloop
  · exact h.put hid hne hnew hfresh hbound hvacant.lt hvacant.found hvacant.free hvacant.passed

end RunD.TaskIndex
