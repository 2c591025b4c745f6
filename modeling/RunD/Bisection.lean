/-
Halving an interval by a test.

`bisect test` keeps the lower half when the test of the midpoint holds and the
upper half when it fails.  Nothing is assumed of the test: the place it comes to
is either the upper end or a place where the test holds, and the place before it
is either below the lower end or one where the test fails (`bisect_holds`,
`bisect_fails_before`).  For a test that holds upwards that is the least place
where it holds (`bisect_isLeast`).  For any test `bisect_eq_iff` says when it
comes to a given place: when every midpoint on the way to that place is answered
by the side on which the place lies.
-/
import Mathlib.Order.Bounds.Basic
import Mathlib.Algebra.Order.Ring.Nat
import Mathlib.Tactic.Common

namespace RunD

/-- The interval's lower end after at most `fuel` halvings; `mid` is computed without the sum of the
ends. -/
def bisect (test : ℕ → Bool) : ℕ → ℕ → ℕ → ℕ
  | 0, low, _ => low
  | fuel + 1, low, high =>
      if low < high then
        if test (low + (high - low) / 2) then bisect test fuel low (low + (high - low) / 2)
        else bisect test fuel (low + (high - low) / 2 + 1) high
      else low

/-- The midpoints on the way to `t`. -/
def midpoints (t : ℕ) : ℕ → ℕ → ℕ → List ℕ
  | 0, _, _ => []
  | fuel + 1, low, high =>
      if low < high then
        (low + (high - low) / 2) ::
          (if t ≤ low + (high - low) / 2 then midpoints t fuel low (low + (high - low) / 2)
          else midpoints t fuel (low + (high - low) / 2 + 1) high)
      else []

variable {test : ℕ → Bool} {fuel low high : ℕ}

/-- Where an interval of a word's width has its midpoint. -/
theorem midpoint_mem (h : low < high) :
    low ≤ low + (high - low) / 2 ∧ low + (high - low) / 2 < high := by omega

theorem bisect_mem (h : low ≤ high) :
    low ≤ bisect test fuel low high ∧ bisect test fuel low high ≤ high := by
  induction fuel generalizing low high with
  | zero => exact ⟨le_refl low, h⟩
  | succ fuel ih =>
      rw [bisect]
      by_cases hlt : low < high
      · obtain ⟨hlow, hhigh⟩ := midpoint_mem hlt
        rw [if_pos hlt]
        cases test (low + (high - low) / 2) with
        | true =>
            obtain ⟨h1, h2⟩ := ih hlow
            exact ⟨h1, le_trans h2 hhigh.le⟩
        | false =>
            obtain ⟨h1, h2⟩ := ih (Nat.succ_le_of_lt hhigh)
            exact ⟨le_trans (Nat.le_succ_of_le hlow) h1, h2⟩
      · rw [if_neg hlt]
        exact ⟨le_refl low, h⟩

/-- The test holds at the place found, unless that is the upper end. -/
theorem bisect_holds (h : low ≤ high) (hfuel : high - low < 2 ^ fuel) :
    bisect test fuel low high = high ∨ test (bisect test fuel low high) = true := by
  induction fuel generalizing low high with
  | zero =>
      rw [pow_zero] at hfuel
      exact Or.inl (show low = high by omega)
  | succ fuel ih =>
      rw [pow_succ] at hfuel
      rw [bisect]
      by_cases hlt : low < high
      · obtain ⟨hlow, hhigh⟩ := midpoint_mem hlt
        rw [if_pos hlt]
        cases htest : test (low + (high - low) / 2) with
        | true =>
            rcases ih hlow (by omega) with heq | hholds
            · refine Or.inr ?_
              rw [if_pos rfl, heq]
              exact htest
            · exact Or.inr hholds
        | false => exact ih (Nat.succ_le_of_lt hhigh) (by omega)
      · rw [if_neg hlt]
        exact Or.inl (le_antisymm h (not_lt.mp hlt))

/-- The test fails right before the place found, unless that is the lower end. -/
theorem bisect_fails_before (h : low ≤ high) (hfuel : high - low < 2 ^ fuel) :
    bisect test fuel low high = low ∨ test (bisect test fuel low high - 1) = false := by
  induction fuel generalizing low high with
  | zero => exact Or.inl rfl
  | succ fuel ih =>
      rw [pow_succ] at hfuel
      rw [bisect]
      by_cases hlt : low < high
      · obtain ⟨hlow, hhigh⟩ := midpoint_mem hlt
        rw [if_pos hlt]
        cases htest : test (low + (high - low) / 2) with
        | true => exact ih hlow (by omega)
        | false =>
            rcases ih (Nat.succ_le_of_lt hhigh) (by omega) with heq | hfails
            · refine Or.inr ?_
              rw [if_neg Bool.false_ne_true, heq]
              exact htest
            · exact Or.inr hfails
      · rw [if_neg hlt]
        exact Or.inl rfl

/-- **A test that holds upwards**: the place found is the least where it holds. -/
theorem bisect_isLeast (hmono : ∀ m m', m ≤ m' → test m = true → test m' = true)
    (h : low ≤ high) (hfuel : high - low < 2 ^ fuel) (hhigh : test high = true) :
    IsLeast {m | low ≤ m ∧ test m = true} (bisect test fuel low high) := by
  obtain ⟨hlow, -⟩ := bisect_mem h
  constructor
  · refine ⟨hlow, ?_⟩
    rcases bisect_holds h hfuel with heq | hholds
    · rw [heq]
      exact hhigh
    · exact hholds
  · rintro m ⟨hm, hholds⟩
    apply not_lt.mp
    intro hlt
    rcases @bisect_fails_before test fuel low high h hfuel with heq | hfails
    · omega
    · rw [hmono m _ (Nat.le_sub_one_of_lt hlt) hholds] at hfails
      exact Bool.noConfusion hfails

/-- **Any test**: the place found is `t` exactly when every midpoint on the way to `t` is answered
by the side on which `t` lies. -/
theorem bisect_eq_iff {t : ℕ} (hlow : low ≤ t) (hhigh : t ≤ high) (hfuel : high - low < 2 ^ fuel) :
    bisect test fuel low high = t ↔
      ∀ m, m ∈ midpoints t fuel low high → test m = decide (t ≤ m) := by
  induction fuel generalizing low high with
  | zero =>
      rw [pow_zero] at hfuel
      have heq : low = t := by omega
      simp [bisect, midpoints, heq]
  | succ fuel ih =>
      rw [pow_succ] at hfuel
      rw [bisect, midpoints]
      by_cases hlt : low < high
      · obtain ⟨hmid, hmid'⟩ := midpoint_mem hlt
        rw [if_pos hlt, if_pos hlt, List.forall_mem_cons]
        by_cases ht : t ≤ low + (high - low) / 2
        · rw [if_pos ht, decide_eq_true ht]
          cases htest : test (low + (high - low) / 2) with
          | true =>
              rw [if_pos rfl, ih hlow ht (by omega)]
              simp
          | false =>
              -- the upper half is kept, which `t` is not in
              have hout := @bisect_mem test fuel _ _ (Nat.succ_le_of_lt hmid')
              simp only [Bool.false_eq_true, if_false, false_and, iff_false]
              intro heq
              rw [heq] at hout
              exact absurd ht (not_le.mpr hout.1)
        · rw [if_neg ht, decide_eq_false ht]
          cases htest : test (low + (high - low) / 2) with
          | true =>
              have hout := @bisect_mem test fuel _ _ hmid
              simp only [if_true, Bool.true_eq_false, false_and, iff_false]
              intro heq
              rw [heq] at hout
              exact absurd hout.2 ht
          | false =>
              rw [if_neg Bool.false_ne_true, ih (not_le.mp ht) hhigh (by omega)]
              simp
      · have heq : low = t := by omega
        rw [if_neg hlt, if_neg hlt]
        simp [heq]

end RunD
