/-
A queue kept in a ring of slots: its items stand one after the other from a
head on, and past the last slot they go on at the first.

`Ring slots head items` says that the slots hold these items.  Taking the
oldest item out and putting a new one in keep it, and the slot of an item can
be computed without a division.
-/
import Mathlib.Data.List.Basic
import Mathlib.Tactic.Common

namespace RunD

variable {α : Type}

/-- The slots hold `items`, the first of them at `head`. -/
structure Ring (slots : List (Option α)) (head : Nat) (items : List α) : Prop where
  head_lt : head < slots.length
  length_le : items.length ≤ slots.length
  slot : ∀ i x, items[i]? = some x → slots[(head + i) % slots.length]? = some (some x)

/-- The items in the slots from a head on, the oldest first. -/
def readRing (slots : List (Option α)) (head count : Nat) : List α :=
  (List.range count).filterMap fun i => (slots[(head + i) % slots.length]?).join

namespace Ring

variable {slots : List (Option α)} {head : Nat} {items : List α}

theorem empty (h : head < slots.length) : Ring slots head [] where
  head_lt := h
  length_le := Nat.zero_le _
  slot := fun i x hx => absurd hx (by simp)

/-- Two places less than a round apart are different slots. -/
theorem slot_ne {n i j : Nat} (hij : i < j) (hj : j < i + n) : i % n ≠ j % n := by
  intro heq
  have hzero : (j - i) % n = 0 := Nat.sub_mod_eq_zero_of_mod_eq heq.symm
  rw [Nat.mod_eq_of_lt (by omega)] at hzero
  omega

/-- The oldest item is taken out. -/
theorem pop {x : α} (h : Ring slots head (x :: items)) :
    Ring (slots.set head none) ((head + 1) % slots.length) items := by
  have hlen := h.length_le
  rw [List.length_cons] at hlen
  have hhead := h.head_lt
  refine ⟨?_, ?_, ?_⟩
  · rw [List.length_set]
    exact Nat.mod_lt _ (by omega)
  · rw [List.length_set]
    omega
  · intro i y hy
    have hi : i < items.length := (List.getElem?_eq_some_iff.mp hy).1
    have hslot := h.slot (i + 1) y (by rw [List.getElem?_cons_succ]; exact hy)
    have hplace : ((head + 1) % slots.length + i) % slots.length =
        (head + (i + 1)) % slots.length := by
      rw [Nat.mod_add_mod]
      congr 1
      omega
    rw [List.length_set, hplace, List.getElem?_set_ne ?_]
    · exact hslot
    · have hne := slot_ne (n := slots.length) (i := head) (j := head + (i + 1)) (by omega) (by omega)
      rwa [Nat.mod_eq_of_lt hhead] at hne

/-- A new item is put in behind the newest. -/
theorem push (h : Ring slots head items) (hroom : items.length < slots.length) (x : α) :
    Ring (slots.set ((head + items.length) % slots.length) (some x)) head (items ++ [x]) := by
  have hhead := h.head_lt
  refine ⟨?_, ?_, ?_⟩
  · rw [List.length_set]
    exact hhead
  · rw [List.length_set, List.length_append, List.length_singleton]
    omega
  · intro i y hy
    rw [List.length_set]
    rcases Nat.lt_trichotomy i items.length with hi | rfl | hi
    · rw [List.getElem?_append_left hi] at hy
      rw [List.getElem?_set_ne ?_]
      · exact h.slot i y hy
      · exact Ne.symm (slot_ne (by omega) (by omega))
    · rw [List.getElem?_append_right (Nat.le_refl _), Nat.sub_self, List.getElem?_cons_zero] at hy
      rw [List.getElem?_set_self (Nat.mod_lt _ (by omega))]
      exact congrArg some hy
    · have hlong := (List.getElem?_eq_some_iff.mp hy).1
      rw [List.length_append, List.length_singleton] at hlong
      omega

/-- The slot of an item, without a division. -/
theorem slot_eq {n index : Nat} (hhead : head < n) (hindex : index < n) :
    (if index < n - head then head + index else index - (n - head)) = (head + index) % n := by
  by_cases h : index < n - head
  · rw [if_pos h, Nat.mod_eq_of_lt (by omega)]
  · rw [if_neg h, Nat.mod_eq_sub_mod (by omega), Nat.mod_eq_of_lt (by omega)]
    omega

/-- Reading the ring gives the items. -/
theorem readRing_eq (h : Ring slots head items) : readRing slots head items.length = items := by
  have hread : (List.range items.length).map (fun i => (slots[(head + i) % slots.length]?).join) =
      items.map some := by
    refine List.ext_getElem? fun i => ?_
    rw [List.getElem?_map, List.getElem?_map]
    rcases hitem : items[i]? with - | x
    · rw [List.getElem?_eq_none (by simpa using hitem)]
      rfl
    · rw [List.getElem?_range (List.getElem?_eq_some_iff.mp hitem).1, Option.map_some,
        h.slot i x hitem]
      rfl
  have hkept := congrArg (List.filterMap id) hread
  rw [List.filterMap_map, List.filterMap_map] at hkept
  exact hkept.trans List.filterMap_some

end Ring

end RunD
