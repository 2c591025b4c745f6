/-
Counting along an arithmetic progression.

Of the first `count` multiples of a step, those below a bound are an initial
segment (`card_below`), and what each of them lacks to the bound adds up in
closed form (`sum_lack`).  A window of places that starts at a multiple of the
step meets an interval in all its places but those that it lacks on the left and
on the right (`card_inside`).
-/
import Mathlib.Algebra.BigOperators.Intervals
import Mathlib.Algebra.Order.BigOperators.Group.Finset
import Mathlib.Data.Nat.Choose.Basic
import Mathlib.Tactic.Ring
import RunD.CheckedWord

namespace RunD

/-- The quotient rounded up. -/
def ceilDiv (total width : Nat) : Nat := total / width + if total % width = 0 then 0 else 1

/-! ### Initial segments -/

theorem lt_ceilDiv_iff {total width n : Nat} (hwidth : 0 < width) :
    n < ceilDiv total width ↔ n * width < total := by
  rw [← Nat.not_le, ceilDiv, ceil_le_iff hwidth, Nat.not_le]

/-- The multiples of a step that are below a bound. -/
theorem card_below {count bound step : Nat} (hstep : 0 < step) :
    ((Finset.range count).filter fun n => n * step < bound).card =
      min count (ceilDiv bound step) := by
  have hsegment : (Finset.range count).filter (fun n => n * step < bound) =
      Finset.range (min count (ceilDiv bound step)) := by
    ext n
    rw [Finset.mem_filter, Finset.mem_range, Finset.mem_range, ← lt_ceilDiv_iff hstep, Nat.lt_min]
  rw [hsegment, Finset.card_range]

/-- The others are the rest. -/
theorem card_not_below {count bound step : Nat} (hstep : 0 < step) :
    ((Finset.range count).filter fun n => bound ≤ n * step).card =
      count - min count (ceilDiv bound step) := by
  have hsplit := Finset.card_filter_add_card_filter_not (s := Finset.range count)
    (fun n => n * step < bound)
  rw [card_below hstep, Finset.card_range] at hsplit
  have hsame : (Finset.range count).filter (fun n => ¬ n * step < bound) =
      (Finset.range count).filter (fun n => bound ≤ n * step) :=
    Finset.filter_congr fun n _ => Nat.not_lt
  rw [hsame] at hsplit
  omega

/-! ### Sums -/

/-- Half of `n * (n - 1)`. -/
def triangle (n : Nat) : Nat := n * (n - 1) / 2

theorem triangle_next (n : Nat) : triangle (n + 1) = triangle n + n := Nat.triangle_succ n

/-- What the multiples lack to a bound that they do not exceed. -/
theorem sum_lack_segment {count bound step : Nat} (h : ∀ n < count, n * step ≤ bound) :
    ∑ n ∈ Finset.range count, (bound - n * step) + triangle count * step = count * bound := by
  induction count with
  | zero => simp [triangle]
  | succ count ih =>
      have hlast := h count (Nat.lt_succ_self count)
      have hrest := ih fun n hn => h n (by omega)
      rw [Finset.sum_range_succ, triangle_next, Nat.add_mul, Nat.add_mul, ← hrest]
      omega

/-- **What the multiples lack to a bound**: those beyond it lack nothing. -/
theorem sum_lack {count bound step : Nat} (hstep : 0 < step) :
    ∑ n ∈ Finset.range count, (bound - n * step) +
        triangle (min count (ceilDiv bound step)) * step =
      min count (ceilDiv bound step) * bound := by
  have hsegment : ∑ n ∈ Finset.range count, (bound - n * step) =
      ∑ n ∈ Finset.range (min count (ceilDiv bound step)), (bound - n * step) := by
    symm
    apply Finset.sum_subset
    · exact Finset.range_mono (Nat.min_le_left _ _)
    · intro n hn hout
      rw [Finset.mem_range] at hn hout
      have hge : ¬ n < ceilDiv bound step := fun hlt => hout (Nat.lt_min.mpr ⟨hn, hlt⟩)
      rw [lt_ceilDiv_iff hstep] at hge
      omega
  rw [hsegment]
  apply sum_lack_segment
  intro n hn
  exact Nat.le_of_lt ((lt_ceilDiv_iff hstep).mp (Nat.lt_min.mp hn).2)

/-- A progression, term by term. -/
theorem sum_progression (count first step : Nat) :
    ∑ n ∈ Finset.range count, (first + n * step) = count * first + triangle count * step := by
  induction count with
  | zero => simp [triangle]
  | succ count ih =>
      rw [Finset.sum_range_succ, ih, triangle_next]
      ring

/-- **What the multiples exceed a bound by**: those up to it exceed it by nothing. -/
theorem sum_excess {count bound step shift : Nat} {start : Nat}
    (hstart : ∀ n, n < start → n * step + shift ≤ bound)
    (hbeyond : start < count → bound ≤ start * step + shift) (hle : start ≤ count) :
    ∑ n ∈ Finset.range count, (n * step + shift - bound) =
      (count - start) * (start * step + shift - bound) + triangle (count - start) * step := by
  obtain ⟨rest, rfl⟩ := Nat.exists_eq_add_of_le hle
  rw [Finset.sum_range_add, Nat.add_sub_cancel_left, ← sum_progression]
  have hnone : ∑ n ∈ Finset.range start, (n * step + shift - bound) = 0 := by
    apply Finset.sum_eq_zero
    intro n hn
    have := hstart n (Finset.mem_range.mp hn)
    omega
  rw [hnone, Nat.zero_add]
  apply Finset.sum_congr rfl
  intro n hn
  have hroom : start < start + rest := by
    have := Finset.mem_range.mp hn
    omega
  have hfirst := hbeyond hroom
  rw [Nat.add_mul]
  omega

/-! ### Windows -/

/-- **The places of a window inside an interval** are all but those that it lacks on either
side; a window that starts before the end of the interval and ends after its start has one. -/
theorem card_inside {width start pad size : Nat} (hpad : pad < width) (hstart : start < size + pad) :
    ((Finset.range width).filter fun place => pad ≤ start + place ∧ start + place < size + pad).card +
        (pad - start) + (start + width - pad - size) = width ∧
      (0 < size → 0 < ((Finset.range width).filter fun place =>
        pad ≤ start + place ∧ start + place < size + pad).card) := by
  have hinterval : (Finset.range width).filter
      (fun place => pad ≤ start + place ∧ start + place < size + pad) =
        Finset.Ico (pad - start) (min width (size + pad - start)) := by
    ext place
    rw [Finset.mem_filter, Finset.mem_range, Finset.mem_Ico]
    omega
  rw [hinterval, Nat.card_Ico]
  omega

end RunD
