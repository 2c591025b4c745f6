/-
The index that finds a kept chunk by its hash: a table with open addressing
whose slots are emptied all at once, by moving on to another epoch.

A search hands out only what the caller's comparison accepted, so equal hashes
of different chunks do no harm.  An insertion fails only when the index holds
as many chunks as it was prepared for: twice as many slots are there.
-/
import RunD.Checked
import RunD.ProbeTable

namespace RunD

/-- `Index::Slot`. -/
structure IndexSlot where
  hash : UInt64 := 0
  index : UInt32 := 0
  epoch : UInt64 := 0
  deriving DecidableEq, Repr

/-- `payload::Index`. -/
structure PayloadIndex where
  slots : List IndexSlot := []
  capacity : Nat := 0
  mask : Nat := 0
  size : Nat := 0
  epoch : UInt64 := 0
  deriving DecidableEq, Repr

namespace PayloadIndex

variable {ε : Type}

/-- The constructor; none when it throws `length_error`. -/
def make (capacity : Nat) : Option PayloadIndex :=
  if capacity = 0 then some {}
  else if capacity > kSizeMax / 2 then none
  else
    match growLoop (capacity * 2) 65 1 with
    | none => none
    | some size =>
        some { slots := List.replicate size {}, capacity := capacity, mask := size - 1, epoch := 1 }

def avalanche (value : UInt64) : UInt64 :=
  let value := (value ^^^ (value >>> 30)) * 0xbf58476d1ce4e5b9
  let value := (value ^^^ (value >>> 27)) * 0x94d049bb133111eb
  value ^^^ (value >>> 31)

/-- The loop of `find`. -/
def findLoop (index : PayloadIndex) (hash : UInt64) (accepts : UInt32 → Bool) :
    Nat → Nat → Checked ε (Option UInt32)
  | 0, _ => pure none
  | turns + 1, slot => do
      let entry ← fetch index.slots slot
      if entry.epoch ≠ index.epoch then pure none
      else if entry.hash = hash ∧ accepts entry.index = true then pure (some entry.index)
      else findLoop index hash accepts turns ((slot + 1) &&& index.mask)

/-- `find`. -/
def find (index : PayloadIndex) (hash : UInt64) (accepts : UInt32 → Bool) :
    Checked ε (Option UInt32) :=
  if index.slots = [] then pure none
  else index.findLoop hash accepts index.slots.length ((avalanche hash).toNat &&& index.mask)

/-- The loop of `insert`. -/
def insertLoop (index : PayloadIndex) (hash : UInt64) (value : UInt32) :
    Nat → Nat → Checked ε (Bool × PayloadIndex)
  | 0, _ => pure (false, index)
  | turns + 1, slot => do
      let entry ← fetch index.slots slot
      if entry.epoch ≠ index.epoch then do
        let slots ← assign index.slots slot { hash := hash, index := value, epoch := index.epoch }
        pure (true, { index with slots := slots, size := index.size + 1 })
      else insertLoop index hash value turns ((slot + 1) &&& index.mask)

/-- `insert`. -/
def insert (index : PayloadIndex) (hash : UInt64) (value : UInt32) :
    Checked ε (Bool × PayloadIndex) :=
  if index.size ≥ index.capacity ∨ index.slots = [] then pure (false, index)
  else index.insertLoop hash value index.slots.length ((avalanche hash).toNat &&& index.mask)

/-- `clear`. -/
def clear (index : PayloadIndex) : PayloadIndex :=
  if index.slots = [] then { index with size := 0 }
  else if index.epoch = ~~~0 then
    { index with
      size := 0
      slots := index.slots.map fun slot => { slot with epoch := 0 }
      epoch := 1 }
  else { index with size := 0, epoch := index.epoch + 1 }

/-! ### The invariant -/

/-- The shape of the index: twice as many slots as chunks may come, and as many slots of this
epoch as chunks came. -/
structure Sized (index : PayloadIndex) : Prop where
  size : index.slots = [] ∨ ∃ k, index.slots.length = 2 ^ k
  mask : index.slots ≠ [] → index.mask = index.slots.length - 1
  room : 2 * index.capacity ≤ index.slots.length
  epochs : ∀ slot ∈ index.slots, slot.epoch.toNat ≤ index.epoch.toNat
  used : index.slots.countP (·.epoch = index.epoch) = index.size
  size_le : index.size ≤ index.capacity

variable {index : PayloadIndex}

/-- A new index is empty. -/
theorem sized_make {capacity : Nat} (h : make capacity = some index) :
    index.Sized ∧ index.size = 0 ∧ index.capacity = capacity := by
  rw [make] at h
  split_ifs at h with hzero hlarge
  · cases h
    refine ⟨⟨Or.inl rfl, fun hne => absurd rfl hne, ?_, ?_, rfl, ?_⟩, rfl, hzero.symm⟩
    · exact Nat.le_refl 0
    · exact fun slot hslot => absurd hslot (by simp)
    · exact Nat.zero_le _
  · cases hgrow : growLoop (capacity * 2) 65 1 with
    | none =>
        rw [hgrow] at h
        cases h
    | some size =>
        rw [hgrow] at h
        cases h
        obtain ⟨hpow, hle⟩ := growLoop_spec ⟨0, rfl⟩ hgrow
        refine ⟨⟨Or.inr ?_, fun _ => ?_, ?_, ?_, ?_, ?_⟩, rfl, rfl⟩
        · obtain ⟨k, hk⟩ := hpow
          exact ⟨k, by rw [List.length_replicate, hk]⟩
        · rw [List.length_replicate]
        · rw [List.length_replicate]
          show 2 * capacity ≤ size
          omega
        · intro slot hslot
          rw [List.eq_of_mem_replicate hslot]
          exact Nat.zero_le _
        · rw [List.countP_replicate]
          rfl
        · exact Nat.zero_le _

theorem Sized.and_mask (h : index.Sized) (hne : index.slots ≠ []) (n : Nat) :
    n &&& index.mask = n % index.slots.length :=
  RunD.and_mask (h.size.resolve_left hne) (h.mask hne) n

theorem Sized.pos (_h : index.Sized) (hne : index.slots ≠ []) : 0 < index.slots.length :=
  List.length_pos_iff.mpr hne

/-- `clear` empties the index. -/
theorem Sized.clear (h : index.Sized) :
    index.clear.Sized ∧ index.clear.size = 0 ∧ index.clear.capacity = index.capacity := by
  rw [PayloadIndex.clear]
  split_ifs with hnone hlast
  · refine ⟨⟨h.size, h.mask, h.room, h.epochs, ?_, Nat.zero_le _⟩, rfl, rfl⟩
    show index.slots.countP _ = 0
    rw [hnone]
    rfl
  · refine ⟨⟨?_, ?_, ?_, ?_, ?_, Nat.zero_le _⟩, rfl, rfl⟩
    · rw [List.map_eq_nil_iff, List.length_map]
      exact h.size
    · intro _
      rw [List.length_map]
      exact h.mask hnone
    · rw [List.length_map]
      exact h.room
    · intro slot hslot
      obtain ⟨before, -, rfl⟩ := List.mem_map.mp hslot
      exact Nat.zero_le _
    · rw [List.countP_map, List.countP_eq_zero]
      intro slot _
      show ¬ decide ((0 : UInt64) = 1) = true
      decide
  · -- no slot has come to the next epoch yet
    have hword : index.epoch.toNat ≠ 2 ^ 64 - 1 := fun heq =>
      hlast (UInt64.toNat_inj.mp (heq.trans (by decide)))
    have hbound := index.epoch.toNat_lt
    have hnext : (index.epoch + 1).toNat = index.epoch.toNat + 1 := by
      rw [UInt64.toNat_add, show (1 : UInt64).toNat = 1 from rfl]
      exact Nat.mod_eq_of_lt (by omega)
    refine ⟨⟨h.size, h.mask, h.room, ?_, ?_, Nat.zero_le _⟩, rfl, rfl⟩
    · intro slot hslot
      have hle := h.epochs slot hslot
      show slot.epoch.toNat ≤ (index.epoch + 1).toNat
      omega
    · rw [List.countP_eq_zero]
      intro slot hslot hcurrent
      have hle := h.epochs slot hslot
      have heq : slot.epoch = index.epoch + 1 := of_decide_eq_true hcurrent
      rw [heq] at hle
      omega

/-! ### Searching -/

theorem Sized.ends_findLoop {E : ε → Prop} (h : index.Sized) (hne : index.slots ≠ [])
    (hash : UInt64) (accepts : UInt32 → Bool) (turns : Nat) {slot : Nat}
    (hslot : slot < index.slots.length) :
    Ends (index.findLoop hash accepts turns slot)
      (fun found => ∀ value, found = some value → accepts value = true) E := by
  induction turns generalizing slot with
  | zero => exact ends_pure (by simp)
  | succ turns ih =>
      refine Ends.bind (ends_fetch hslot) ?_
      intro entry _
      split_ifs with hstale hfound
      · exact ends_pure (by simp)
      · refine ends_pure ?_
        rintro _ ⟨⟩
        exact hfound.2
      · apply ih
        rw [h.and_mask hne]
        exact Nat.mod_lt _ (h.pos hne)

/-- **A search finds only what the comparison accepts.** -/
theorem Sized.ends_find {E : ε → Prop} (h : index.Sized) (hash : UInt64)
    (accepts : UInt32 → Bool) :
    Ends (index.find hash accepts)
      (fun found => ∀ value, found = some value → accepts value = true) E := by
  rw [find]
  split_ifs with hnone
  · exact ends_pure (by simp)
  · apply h.ends_findLoop hnone
    rw [h.and_mask hnone]
    exact Nat.mod_lt _ (h.pos hnone)

/-! ### Inserting -/

/-- A slot that an insertion has filled. -/
theorem Sized.fill (h : index.Sized) (hroom : index.size < index.capacity) {slot : Nat}
    {entry : IndexSlot} (hget : index.slots[slot]? = some entry) (hstale : entry.epoch ≠ index.epoch)
    (hash : UInt64) (value : UInt32) :
    Sized { index with
      slots := index.slots.set slot { hash := hash, index := value, epoch := index.epoch }
      size := index.size + 1 } := by
  obtain ⟨hlt, hentry⟩ := List.getElem?_eq_some_iff.mp hget
  refine ⟨?_, ?_, ?_, ?_, ?_, hroom⟩
  · rw [List.set_eq_nil_iff, List.length_set]
    exact h.size
  · intro hne
    rw [ne_eq, List.set_eq_nil_iff] at hne
    rw [List.length_set]
    exact h.mask hne
  · rw [List.length_set]
    exact h.room
  · intro other hother
    rcases List.mem_or_eq_of_mem_set hother with hold | rfl
    · exact h.epochs other hold
    · exact Nat.le_refl _
  · show (index.slots.set slot _).countP (·.epoch = index.epoch) = index.size + 1
    rw [List.countP_set hlt, hentry, h.used]
    simp [hstale]

/-- From a slot on, an insertion comes to the next stale slot. -/
theorem Sized.insertLoop_eq (h : index.Sized) (hroom : index.size < index.capacity)
    (hne : index.slots ≠ []) (hash : UInt64) (value : UInt32) (turns : Nat) {slot : Nat}
    (hslot : slot < index.slots.length)
    (hahead : ∃ d < turns, ∃ entry, index.slots[(slot + d) % index.slots.length]? = some entry ∧
      entry.epoch ≠ index.epoch) :
    ∃ index' : PayloadIndex, (index.insertLoop hash value turns slot :
        Checked ε (Bool × PayloadIndex)) = Except.ok (true, index') ∧ index'.Sized ∧
      index'.size = index.size + 1 ∧ index'.capacity = index.capacity := by
  induction turns generalizing slot with
  | zero =>
      obtain ⟨d, hd, -⟩ := hahead
      omega
  | succ turns ih =>
      have hget : index.slots[slot]? = some index.slots[slot] := List.getElem?_eq_getElem hslot
      rw [insertLoop, fetch_of_lt hget, ok_bind]
      by_cases hstale : index.slots[slot].epoch ≠ index.epoch
      · rw [if_pos hstale, assign_of_lt hslot, ok_bind]
        exact ⟨_, rfl, h.fill hroom hget hstale hash value, rfl, rfl⟩
      · rw [if_neg hstale]
        obtain ⟨d, hd, entry, hentry, hfree⟩ := hahead
        -- this slot is not stale, so the stale one lies further on
        have hpos : d ≠ 0 := by
          rintro rfl
          rw [Nat.add_zero, Nat.mod_eq_of_lt hslot, hget] at hentry
          cases hentry
          exact hstale hfree
        apply ih
        · rw [h.and_mask hne]
          exact Nat.mod_lt _ (h.pos hne)
        · refine ⟨d - 1, by omega, entry, ?_, hfree⟩
          rw [h.and_mask hne, Nat.mod_add_mod, show slot + 1 + (d - 1) = slot + d by omega]
          exact hentry

/-- **An index that is not full takes another chunk.** -/
theorem Sized.insert_eq (h : index.Sized) (hroom : index.size < index.capacity) (hash : UInt64)
    (value : UInt32) :
    ∃ index' : PayloadIndex, (index.insert hash value : Checked ε (Bool × PayloadIndex)) =
        Except.ok (true, index') ∧ index'.Sized ∧ index'.size = index.size + 1 ∧
      index'.capacity = index.capacity := by
  have hlen := h.room
  have hne : index.slots ≠ [] := by
    rintro hnone
    rw [hnone, List.length_nil] at hlen
    omega
  have hhome : (avalanche hash).toNat &&& index.mask < index.slots.length := by
    rw [h.and_mask hne]
    exact Nat.mod_lt _ (h.pos hne)
  -- fewer slots are used than there are
  have hstale : ∃ entry ∈ index.slots, entry.epoch ≠ index.epoch := by
    by_contra hall
    have hcount : index.slots.countP (·.epoch = index.epoch) = index.slots.length := by
      rw [List.countP_eq_length]
      intro entry hentry
      by_contra hother
      exact hall ⟨entry, hentry, fun heq => hother (decide_eq_true heq)⟩
    rw [h.used] at hcount
    omega
  obtain ⟨entry, hmem, hentry⟩ := hstale
  obtain ⟨place, hplace⟩ := List.mem_iff_getElem?.mp hmem
  obtain ⟨d, hd, hreach⟩ := exists_probe hhome (List.getElem?_eq_some_iff.mp hplace).1
  rw [insert, if_neg (by simp only [hne, or_false]; omega)]
  exact h.insertLoop_eq hroom hne hash value _ hhome
    ⟨d, hd, entry, by rw [hreach]; exact hplace, hentry⟩

end PayloadIndex

end RunD
