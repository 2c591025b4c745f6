/-
Cutting a row of weighted places greedily.

`W` gives the weight of the places before a place.  Part `i` may weigh up to
`allow i`; the greedy cut gives each part as many places as it may weigh, and
leaves one place for each part to come.

Greedy cuts are not monotone in the allowances: with more allowed, an early part
can take so much that a later part starts at a place too heavy for it.  What
does hold is that a greedy cut stays what it is when the allowances shrink to
what its parts weigh (`greedyCut_eq_of_fits`), and that allowances which do not
grow along the parts keep a cut when they are raised (`cuts_greedyCut_mono`).
-/
import RunD.Cuts
import Mathlib.Order.Bounds.Basic
import Mathlib.Order.Monotone.Basic

namespace RunD

/-! ### Filling one part -/

/-- The place up to which a part from `start` on is filled, at most `left` places after `stop`. -/
def fillTo (W : ℕ → ℕ) (start allowed : ℕ) : ℕ → ℕ → ℕ
  | 0, stop => stop
  | left + 1, stop =>
      if W (stop + 1) - W start ≤ allowed then fillTo W start allowed left (stop + 1) else stop

variable {W : ℕ → ℕ}

/-- A part is filled as far as its weight and the places allow. -/
theorem fillTo_isGreatest (hW : Monotone W) {start : ℕ} (allowed left : ℕ) {stop : ℕ} (hstart : start ≤ stop)
    (hfits : W stop - W start ≤ allowed) :
    IsGreatest {e | start ≤ e ∧ e ≤ stop + left ∧ W e - W start ≤ allowed}
      (fillTo W start allowed left stop) := by
  induction left generalizing stop with
  | zero => exact ⟨⟨hstart, le_refl _, hfits⟩, fun e he => he.2.1⟩
  | succ left ih =>
      rw [fillTo]
      by_cases hnext : W (stop + 1) - W start ≤ allowed
      · rw [if_pos hnext]
        have hrest := ih (Nat.le_succ_of_le hstart) hnext
        rwa [Nat.add_right_comm stop 1 left] at hrest
      · rw [if_neg hnext]
        refine ⟨⟨hstart, Nat.le_add_right _ _, hfits⟩, fun e he => ?_⟩
        apply not_lt.mp
        intro hlt
        -- what weighs too much one place on weighs too much from there on
        exact hnext (le_trans (Nat.sub_le_sub_right (hW hlt) _) he.2.2)

/-! ### The greedy cut -/

/-- Where the parts of the greedy cut of `n` places into `k` parts start. -/
def greedyCut (W allow : ℕ → ℕ) (k n : ℕ) : ℕ → ℕ
  | 0 => 0
  | i + 1 =>
      fillTo W (greedyCut W allow k n i) (allow i) (n - (k - i - 1) - greedyCut W allow k n i)
        (greedyCut W allow k n i)

/-- Every part weighs no more than it may. -/
def PartsFit (W allow cut : ℕ → ℕ) (k : ℕ) : Prop :=
  ∀ i, i < k → W (cut (i + 1)) - W (cut i) ≤ allow i

variable {allow allow' : ℕ → ℕ} {k n : ℕ}

@[simp] theorem greedyCut_zero : greedyCut W allow k n 0 = 0 := rfl

theorem greedyCut_isGreatest (hW : Monotone W) (allow : ℕ → ℕ) (k n i : ℕ) :
    IsGreatest {e | greedyCut W allow k n i ≤ e ∧
      e ≤ max (greedyCut W allow k n i) (n - (k - i - 1)) ∧
      W e - W (greedyCut W allow k n i) ≤ allow i} (greedyCut W allow k n (i + 1)) := by
  have hbound : greedyCut W allow k n i + (n - (k - i - 1) - greedyCut W allow k n i) =
      max (greedyCut W allow k n i) (n - (k - i - 1)) := by omega
  have hfill := fillTo_isGreatest hW (allow i) (n - (k - i - 1) - greedyCut W allow k n i)
    (le_refl (greedyCut W allow k n i)) (by rw [Nat.sub_self]; exact Nat.zero_le _)
  rwa [hbound] at hfill

theorem partsFit_greedyCut (hW : Monotone W) : PartsFit W allow (greedyCut W allow k n) k :=
  fun i _ => (greedyCut_isGreatest hW allow k n i).1.2.2

/-- **A greedy cut stays** when the allowances shrink to what its parts weigh. -/
theorem greedyCut_eq_of_fits (hW : Monotone W) (hle : ∀ i, i < k → allow' i ≤ allow i)
    (hfit : PartsFit W allow' (greedyCut W allow k n) k) {i : ℕ} (hi : i ≤ k) :
    greedyCut W allow' k n i = greedyCut W allow k n i := by
  induction i with
  | zero => rfl
  | succ i ih =>
      have hstart := ih (Nat.le_of_succ_le hi)
      have hnew := greedyCut_isGreatest hW allow' k n i
      have hold := greedyCut_isGreatest hW allow k n i
      rw [hstart] at hnew
      apply le_antisymm
      · exact hold.2 ⟨hnew.1.1, hnew.1.2.1, le_trans hnew.1.2.2 (hle i hi)⟩
      · exact hnew.2 ⟨hold.1.1, hold.1.2.1, hfit i hi⟩

/-- The parts still to come have room. -/
theorem greedyCut_room (hW : Monotone W) (allow : ℕ → ℕ) (hkn : k ≤ n) {i : ℕ} (hi : i ≤ k) :
    greedyCut W allow k n i + (k - i) ≤ n := by
  induction i with
  | zero => rwa [greedyCut_zero, Nat.zero_add]
  | succ i ih =>
      have hroom := ih (Nat.le_of_succ_le hi)
      have hend := (greedyCut_isGreatest hW allow k n i).1.2.1
      omega

/-- A part ends as far as its weight and the parts to come allow. -/
theorem greedyCut_end_isGreatest (hW : Monotone W) (allow : ℕ → ℕ) (hkn : k ≤ n) {i : ℕ}
    (hi : i < k) :
    IsGreatest {e | greedyCut W allow k n i ≤ e ∧ e ≤ n - (k - i - 1) ∧
      W e - W (greedyCut W allow k n i) ≤ allow i} (greedyCut W allow k n (i + 1)) := by
  have hroom := greedyCut_room hW allow hkn hi.le
  have hgreat := greedyCut_isGreatest hW allow k n i
  rwa [max_eq_right (by omega)] at hgreat

/-- Where everything fits every part, the greedy cut is a cut: every part but the first is one
place, and the first has the rest. -/
theorem cuts_greedyCut_of_all (hW : Monotone W) (hk : 0 < k) (hkn : k ≤ n)
    (hall : ∀ i, i < k → W n ≤ allow i) : Cuts (greedyCut W allow k n) k n := by
  have hends : ∀ i, i < k → greedyCut W allow k n (i + 1) = n - (k - i - 1) := by
    intro i hi
    have hroom := greedyCut_room hW allow hkn hi.le
    have hgreat := greedyCut_end_isGreatest hW allow hkn hi
    apply le_antisymm hgreat.1.2.1
    refine hgreat.2 ⟨by omega, le_refl _, ?_⟩
    exact le_trans (Nat.sub_le _ _) (le_trans (hW (Nat.sub_le _ _)) (hall i hi))
  refine ⟨rfl, ?_, fun i hi => ?_⟩
  · obtain ⟨i, rfl⟩ := Nat.exists_eq_succ_of_ne_zero (Nat.ne_of_gt hk)
    rw [hends i (Nat.lt_succ_self i)]
    omega
  · have hroom := greedyCut_room hW allow hkn hi.le
    rw [hends i hi]
    omega

/-- **Room for a cut**: where the parts of some cut fit, the greedy cut is a cut of all places,
provided that a part may weigh no less than what any later part of that cut could weigh. -/
theorem cuts_greedyCut_of_fits (hW : Monotone W) {cut : ℕ → ℕ} (h : Cuts cut k n)
    (hfit : PartsFit W allow cut k) (hraise : ∀ i s, i ≤ s → s < k → allow s ≤ allow' i) :
    Cuts (greedyCut W allow' k n) k n := by
  have hkn := h.parts_le
  -- a place where a greedy part starts lies in a part of the cut that is no earlier
  have hnext : ∀ i, i < k → cut i ≤ greedyCut W allow' k n i →
      greedyCut W allow' k n i < greedyCut W allow' k n (i + 1) ∧
        cut (i + 1) ≤ greedyCut W allow' k n (i + 1) := by
    intro i hi hahead
    have hroom := greedyCut_room hW allow' hkn hi.le
    have hnew := greedyCut_end_isGreatest hW allow' hkn hi
    obtain ⟨s, ⟨hs, hlow, hhigh⟩, -⟩ := h.covers (p := greedyCut W allow' k n i) (by omega)
    have his : i ≤ s := by
      apply not_lt.mp
      intro hlt
      have := h.mono (i := s + 1) (j := i) hlt hi.le
      omega
    constructor
    · apply Nat.lt_of_succ_le
      refine hnew.2 ⟨Nat.le_succ _, by omega, ?_⟩
      calc W (greedyCut W allow' k n i + 1) - W (greedyCut W allow' k n i)
          ≤ W (cut (s + 1)) - W (cut s) :=
            le_trans (Nat.sub_le_sub_right (hW hhigh) _) (Nat.sub_le_sub_left (hW hlow) _)
        _ ≤ allow s := hfit s hs
        _ ≤ allow' i := hraise i s his hs
    · rcases le_total (cut (i + 1)) (greedyCut W allow' k n i) with hle | hle
      · exact le_trans hle hnew.1.1
      · have hlast := h.room (i := i + 1) hi
        refine hnew.2 ⟨hle, by omega, ?_⟩
        calc W (cut (i + 1)) - W (greedyCut W allow' k n i)
            ≤ W (cut (i + 1)) - W (cut i) := Nat.sub_le_sub_left (hW hahead) _
          _ ≤ allow i := hfit i hi
          _ ≤ allow' i := hraise i i (le_refl i) hi
  have hahead : ∀ i, i ≤ k → cut i ≤ greedyCut W allow' k n i := by
    intro i hi
    induction i with
    | zero => exact h.start.le
    | succ i ih => exact (hnext i hi (ih (Nat.le_of_succ_le hi))).2
  refine ⟨rfl, ?_, fun i hi => (hnext i hi (hahead i hi.le)).1⟩
  apply le_antisymm
  · have := greedyCut_room hW allow' hkn (le_refl k)
    omega
  · have hlast := hahead k (le_refl k)
    rwa [h.stop] at hlast

end RunD
