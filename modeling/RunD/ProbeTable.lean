/-
The geometry of a table with open addressing: its size is a power of two, so
masking a number is taking a remainder, and stepping from any slot on goes
around the whole table.
-/
import Mathlib.Algebra.Order.Ring.Nat
import Mathlib.Data.Nat.Bitwise
import Mathlib.Data.Nat.ModEq

namespace RunD

/-- `std::numeric_limits<std::size_t>::max()`. -/
def kSizeMax : Nat := 2 ^ 64 - 1

/-- A loop that doubles a size until it reaches `target`. -/
def growLoop (target : Nat) : Nat → Nat → Option Nat
  | 0, _ => none
  | turns + 1, size =>
      if size < target then
        if size > kSizeMax / 2 then none else growLoop target turns (size * 2)
      else some size

theorem growLoop_spec {target turns size result : Nat} (hsize : ∃ k, size = 2 ^ k)
    (h : growLoop target turns size = some result) :
    (∃ k, result = 2 ^ k) ∧ target ≤ result := by
  induction turns generalizing size with
  | zero => exact absurd h (by simp [growLoop])
  | succ turns ih =>
      rw [growLoop] at h
      split_ifs at h with hsmall
      · obtain ⟨k, rfl⟩ := hsize
        exact ih ⟨k + 1, (Nat.pow_succ ..).symm⟩ h
      · cases h
        exact ⟨hsize, Nat.le_of_not_lt hsmall⟩

/-- A table grows to every size that half of all words can count. -/
theorem isSome_growLoop {target turns k : Nat} (htarget : target ≤ 2 ^ 63)
    (hturns : 63 < k + turns) (hk : k ≤ 63) : (growLoop target turns (2 ^ k)).isSome = true := by
  induction turns generalizing k with
  | zero => omega
  | succ turns ih =>
      rw [growLoop]
      split_ifs with hsmall hlarge
      · exfalso
        have hbound : 2 ^ k ≤ 2 ^ 62 := by
          refine Nat.pow_le_pow_right (by omega) ?_
          have hlt : 2 ^ k < 2 ^ 63 := Nat.lt_of_lt_of_le hsmall htarget
          have hexp := (Nat.pow_lt_pow_iff_right (by omega : 1 < 2)).mp hlt
          omega
        rw [kSizeMax] at hlarge
        omega
      · have hlt : 2 ^ k < 2 ^ 63 := Nat.lt_of_lt_of_le hsmall htarget
        have hexp := (Nat.pow_lt_pow_iff_right (by omega : 1 < 2)).mp hlt
        rw [← Nat.pow_succ]
        exact ih (by omega) (by omega)
      · rfl

/-- Masking a number is taking the remainder. -/
theorem and_mask {size mask : Nat} (hsize : ∃ k, size = 2 ^ k) (hmask : mask = size - 1) (n : Nat) :
    n &&& mask = n % size := by
  obtain ⟨k, rfl⟩ := hsize
  rw [hmask, Nat.and_two_pow_sub_one_eq_mod]

/-- Every slot is met once on the way around. -/
theorem exists_probe {n home slot : Nat} (hhome : home < n) (hslot : slot < n) :
    ∃ d < n, (home + d) % n = slot := by
  by_cases hle : home ≤ slot
  · refine ⟨slot - home, by omega, ?_⟩
    rw [Nat.add_sub_cancel' hle, Nat.mod_eq_of_lt hslot]
  · refine ⟨slot + n - home, by omega, ?_⟩
    rw [show home + (slot + n - home) = slot + n by omega, Nat.add_mod_right,
      Nat.mod_eq_of_lt hslot]

theorem probe_inj {n home d e : Nat} (hd : d < n) (he : e < n)
    (h : (home + d) % n = (home + e) % n) : d = e := by
  have : d % n = e % n := Nat.ModEq.add_left_cancel' home h
  rwa [Nat.mod_eq_of_lt hd, Nat.mod_eq_of_lt he] at this

end RunD
