/-
Items that stand one after the other around a circle of slots.

`Stored slots offset items` says that the slots hold the items from an offset
on, past the last slot at the first ones.  A row of items may be written in
two pieces, up to the last slot and from the first one on; written behind items
that are stored, it is stored behind them, as long as all of them fit.
-/
import RunD.Ring

namespace RunD

variable {α : Type}

/-! ### Places -/

/-- The place an offset behind a base, without a division. -/
def wrap (base offset capacity : Nat) : Nat :=
  if offset ≥ capacity - base then offset - (capacity - base) else base + offset

theorem wrap_eq_mod {base offset capacity : Nat} (hbase : base < capacity)
    (hoffset : offset ≤ capacity) : wrap base offset capacity = (base + offset) % capacity := by
  unfold wrap
  by_cases h : offset ≥ capacity - base
  · rw [if_pos h, Nat.mod_eq_sub_mod (by omega), Nat.mod_eq_of_lt (by omega)]
    omega
  · rw [if_neg h, Nat.mod_eq_of_lt (by omega)]

/-! ### Stored items -/

/-- The slots hold `items` from `offset` on. -/
structure Stored (slots : List α) (offset : Nat) (items : List α) : Prop where
  length_le : items.length ≤ slots.length
  item : ∀ i x, items[i]? = some x → slots[(offset + i) % slots.length]? = some x

namespace Stored

variable {slots : List α} {offset : Nat} {items more : List α}

theorem nil : Stored slots offset [] where
  length_le := Nat.zero_le _
  item := fun i x hx => absurd hx (by simp)

theorem left (h : Stored slots offset (items ++ more)) : Stored slots offset items where
  length_le := by
    have := h.length_le
    rw [List.length_append] at this
    omega
  item := by
    intro i x hx
    have hi : i < items.length := (List.getElem?_eq_some_iff.mp hx).1
    apply h.item i x
    rw [List.getElem?_append_left hi]
    exact hx

theorem right (h : Stored slots offset (items ++ more)) :
    Stored slots ((offset + items.length) % slots.length) more where
  length_le := by
    have := h.length_le
    rw [List.length_append] at this
    omega
  item := by
    intro i x hx
    have hplace : ((offset + items.length) % slots.length + i) % slots.length =
        (offset + (items.length + i)) % slots.length := by
      rw [Nat.mod_add_mod, Nat.add_assoc]
    rw [hplace]
    apply h.item
    rw [List.getElem?_append_right (Nat.le_add_right _ _), Nat.add_sub_cancel_left]
    exact hx

theorem head {x : α} (h : Stored slots offset (x :: items)) (hoffset : offset < slots.length) :
    slots[offset]? = some x := by
  have hx := h.item 0 x rfl
  rw [Nat.add_zero, Nat.mod_eq_of_lt hoffset] at hx
  exact hx

end Stored

/-! ### Writing -/

/-- `memcpy` of a row of items into an array. -/
def copyInto (slots : List α) (offset : Nat) (row : List α) : Option (List α) :=
  if offset + row.length ≤ slots.length then
    some (slots.take offset ++ row ++ slots.drop (offset + row.length))
  else none

/-- `memcpy` of a row of items out of an array. -/
def extract (slots : List α) (offset count : Nat) : Option (List α) :=
  if offset + count ≤ slots.length then some ((slots.drop offset).take count) else none

section Write

variable {slots slots' row : List α} {offset : Nat}

theorem copyInto_of_le (h : offset + row.length ≤ slots.length) :
    copyInto slots offset row =
      some (slots.take offset ++ row ++ slots.drop (offset + row.length)) := if_pos h

theorem extract_of_le {count : Nat} (h : offset + count ≤ slots.length) :
    extract slots offset count = some ((slots.drop offset).take count) := if_pos h

theorem length_of_copyInto (h : copyInto slots offset row = some slots') :
    slots'.length = slots.length := by
  unfold copyInto at h
  split at h
  · rename_i hle
    cases h
    rw [List.length_append, List.length_append, List.length_take, List.length_drop]
    omega
  · cases h

theorem getElem?_of_copyInto (h : copyInto slots offset row = some slots') (i : Nat) :
    slots'[i]? = if offset ≤ i ∧ i < offset + row.length then row[i - offset]? else slots[i]? := by
  unfold copyInto at h
  split at h
  · rename_i hle
    cases h
    have htake : (slots.take offset).length = offset := by
      rw [List.length_take]
      omega
    rw [List.append_assoc]
    by_cases hbefore : i < offset
    · rw [List.getElem?_append_left (by omega), List.getElem?_take_of_lt hbefore, if_neg (by omega)]
    · rw [List.getElem?_append_right (by omega), htake]
      by_cases hin : i < offset + row.length
      · rw [List.getElem?_append_left (by omega), if_pos ⟨by omega, hin⟩]
      · rw [List.getElem?_append_right (by omega), List.getElem?_drop, if_neg (by omega)]
        congr 1
        omega
  · cases h

/-- What was written over is what one reads there. -/
theorem extract_of_copyInto (h : copyInto slots offset row = some slots') :
    extract slots' offset row.length = some row := by
  have hlen := length_of_copyInto h
  unfold copyInto at h
  split at h
  · rename_i hle
    cases h
    rw [extract_of_le (by omega), List.append_assoc, List.drop_append_of_le_length (by
      rw [List.length_take]
      omega)]
    have htake : (slots.take offset).drop offset = [] := by
      apply List.drop_eq_nil_of_le
      rw [List.length_take]
      omega
    rw [htake, List.nil_append, List.take_left']
    rfl
  · cases h

end Write

/-- The slots after a row was written around the circle from `offset` on: the row stands there and
the other slots are as they were. -/
structure WrittenAround (slots : List α) (offset : Nat) (row slots' : List α) : Prop where
  length_eq : slots'.length = slots.length
  stands : ∀ i, i < row.length → slots'[(offset + i) % slots.length]? = row[i]?
  kept : ∀ j, j < slots.length → (∀ i, i < row.length → j ≠ (offset + i) % slots.length) →
    slots'[j]? = slots[j]?

section WrittenAround

variable {slots slots' slots'' row items : List α} {offset : Nat}

/-- A row that ends before the last slot is one piece. -/
theorem writtenAround_of_copyInto (hfits : offset + row.length ≤ slots.length)
    (h : copyInto slots offset row = some slots') : WrittenAround slots offset row slots' where
  length_eq := length_of_copyInto h
  stands := by
    intro i hi
    rw [Nat.mod_eq_of_lt (by omega), getElem?_of_copyInto h, if_pos ⟨by omega, by omega⟩,
      Nat.add_sub_cancel_left]
  kept := by
    intro j hj hother
    rw [getElem?_of_copyInto h, if_neg]
    intro hin
    apply hother (j - offset) (by omega)
    rw [Nat.mod_eq_of_lt (by omega)]
    omega

/-- A row that goes past the last slot is two pieces. -/
theorem writtenAround_of_copyInto_twice {first : Nat} (hfirst : offset + first = slots.length)
    (hlt : first < row.length) (hfits : row.length ≤ slots.length)
    (h : copyInto slots offset (row.take first) = some slots')
    (h' : copyInto slots' 0 (row.drop first) = some slots'') :
    WrittenAround slots offset row slots'' where
  length_eq := (length_of_copyInto h').trans (length_of_copyInto h)
  stands := by
    intro i hi
    have htake : (row.take first).length = first := by
      rw [List.length_take]
      omega
    rw [getElem?_of_copyInto h', List.length_drop]
    by_cases hbefore : i < first
    · rw [Nat.mod_eq_of_lt (by omega), if_neg (by omega), getElem?_of_copyInto h, htake,
        if_pos ⟨by omega, by omega⟩, Nat.add_sub_cancel_left, List.getElem?_take_of_lt hbefore]
    · rw [Nat.mod_eq_sub_mod (by omega), Nat.mod_eq_of_lt (by omega), if_pos ⟨by omega, by omega⟩,
        List.getElem?_drop]
      congr 1
      omega
  kept := by
    intro j hj hother
    have htake : (row.take first).length = first := by
      rw [List.length_take]
      omega
    -- a slot that either piece covers is the place of an item of the row
    have hbehind : ¬ offset ≤ j := by
      intro hle
      apply hother (j - offset) (by omega)
      rw [Nat.mod_eq_of_lt (by omega)]
      omega
    have hfront : ¬ j < row.length - first := by
      intro hlt'
      apply hother (first + j) (by omega)
      rw [Nat.mod_eq_sub_mod (by omega), Nat.mod_eq_of_lt (by omega)]
      omega
    rw [getElem?_of_copyInto h', List.length_drop, if_neg (by omega), getElem?_of_copyInto h,
      if_neg (by omega)]

/-- One slot that is set is a row of one item. -/
theorem written_set {x : α} (h : offset < slots.length) :
    WrittenAround slots offset [x] (slots.set offset x) where
  length_eq := List.length_set
  stands := by
    intro i hi
    rw [List.length_singleton] at hi
    obtain rfl : i = 0 := by omega
    rw [Nat.add_zero, Nat.mod_eq_of_lt h, List.getElem?_set_self h]
    rfl
  kept := by
    intro j hj hother
    have hne := hother 0 Nat.one_pos
    rw [Nat.add_zero, Nat.mod_eq_of_lt h] at hne
    rw [List.getElem?_set_ne (Ne.symm hne)]

/-- **What is written behind stored items is stored behind them.** -/
theorem Stored.write (h : Stored slots offset items)
    (hw : WrittenAround slots ((offset + items.length) % slots.length) row slots')
    (hfits : items.length + row.length ≤ slots.length) :
    Stored slots' offset (items ++ row) where
  length_le := by
    rw [List.length_append, hw.length_eq]
    exact hfits
  item := by
    intro i x hx
    have hlt := (List.getElem?_eq_some_iff.mp hx).1
    rw [List.length_append] at hlt
    rw [hw.length_eq]
    by_cases hi : i < items.length
    · rw [List.getElem?_append_left hi] at hx
      rw [hw.kept]
      · exact h.item i x hx
      · exact Nat.mod_lt _ (by omega)
      · intro j hj
        rw [Nat.mod_add_mod]
        exact Ring.slot_ne (by omega) (by omega)
    · rw [List.getElem?_append_right (by omega)] at hx
      have hplace : (offset + i) % slots.length =
          ((offset + items.length) % slots.length + (i - items.length)) % slots.length := by
        rw [Nat.mod_add_mod]
        congr 1
        omega
      rw [hplace, hw.stands _ (by omega)]
      exact hx

end WrittenAround

/-! ### Reading -/

/-- The items that stand from an offset on, read in two pieces. -/
theorem Stored.read {slots items : List α} {offset first : Nat} (h : Stored slots offset items)
    (hoffset : offset < slots.length) (hfirst : first = min items.length (slots.length - offset)) :
    (slots.drop offset).take first = items.take first ∧
      slots.take (items.length - first) = items.drop first := by
  have hlen := h.length_le
  constructor
  · apply List.ext_getElem?
    intro i
    by_cases hi : i < first
    · rw [List.getElem?_take_of_lt hi, List.getElem?_take_of_lt hi, List.getElem?_drop]
      obtain ⟨x, hx⟩ : ∃ x, items[i]? = some x := ⟨_, List.getElem?_eq_getElem (by omega)⟩
      have hslot := h.item i x hx
      rw [Nat.mod_eq_of_lt (by omega)] at hslot
      rw [hslot, hx]
    · rw [List.getElem?_eq_none (by rw [List.length_take]; omega),
        List.getElem?_eq_none (by rw [List.length_take]; omega)]
  · apply List.ext_getElem?
    intro i
    rw [List.getElem?_drop]
    by_cases hi : i < items.length - first
    · rw [List.getElem?_take_of_lt hi]
      obtain ⟨x, hx⟩ : ∃ x, items[first + i]? = some x :=
        ⟨_, List.getElem?_eq_getElem (by omega)⟩
      have hslot := h.item (first + i) x hx
      rw [Nat.mod_eq_sub_mod (by omega), Nat.mod_eq_of_lt (by omega)] at hslot
      rw [hx, ← hslot]
      congr 1
      omega
    · rw [List.getElem?_eq_none (by rw [List.length_take]; omega),
        List.getElem?_eq_none (by omega)]

end RunD
