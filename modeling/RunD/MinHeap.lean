/-
The order of a binary heap kept in an array: the children of place `i` stand at
`2 * i + 1` and `2 * i + 2`.

Only the keys at the places matter here, so a heap is a function from places to
keys.  Sinking an item keeps `HeapExcept`, the heap order with a hole at the
place of that item, and moves the hole to the smaller child; where the item is
no larger than its children the hole closes.  Raising an item keeps `HeapRising`
and moves the hole to the parent in the same way.
-/
import Mathlib.Order.Defs.PartialOrder
import Mathlib.Tactic.Common

namespace RunD

variable {κ : Type} [Preorder κ] {key key' : Nat → κ} {n hole : Nat}

/-- Every place below `n` but the first has a key no smaller than its parent's. -/
def IsHeap (key : Nat → κ) (n : Nat) : Prop :=
  ∀ i, 0 < i → i < n → key ((i - 1) / 2) ≤ key i

/-- A heap but for the place `hole`, whose key may be too large. -/
structure HeapExcept (key : Nat → κ) (n hole : Nat) : Prop where
  parent_le : ∀ i, 0 < i → i < n → (i - 1) / 2 ≠ hole → key ((i - 1) / 2) ≤ key i
  grandparent_le : ∀ i, 0 < i → i < n → (i - 1) / 2 = hole → 0 < hole →
    key ((hole - 1) / 2) ≤ key i

/-- The first place of a heap has the least key. -/
theorem IsHeap.first_le (h : IsHeap key n) {i : Nat} (hi : i < n) : key 0 ≤ key i := by
  induction i using Nat.strongRecOn with
  | ind i ih =>
      rcases Nat.eq_zero_or_pos i with rfl | hpos
      · exact le_refl _
      · exact le_trans (ih ((i - 1) / 2) (by omega) (by omega)) (h i hpos hi)

/-- Raising the first key of a heap opens a hole there. -/
theorem IsHeap.raise_first (h : IsHeap key n) (hsame : ∀ i, 0 < i → i < n → key' i = key i) :
    HeapExcept key' n 0 := by
  refine ⟨fun i hpos hi hparent => ?_, fun i _ _ _ h0 => absurd h0 (Nat.lt_irrefl 0)⟩
  rw [hsame i hpos hi, hsame ((i - 1) / 2) (by omega) (by omega)]
  exact h i hpos hi

/-- A hole whose key is no larger than those of its children is no hole. -/
theorem HeapExcept.close (h : HeapExcept key n hole)
    (hchildren : ∀ i, 0 < i → i < n → (i - 1) / 2 = hole → key hole ≤ key i) : IsHeap key n := by
  intro i hpos hi
  by_cases hparent : (i - 1) / 2 = hole
  · rw [hparent]
    exact hchildren i hpos hi hparent
  · exact h.parent_le i hpos hi hparent

/-- Exchanging the hole with its smaller child moves the hole there. -/
theorem HeapExcept.sink (h : HeapExcept key n hole) {child : Nat} (hpos : 0 < child)
    (hlt : child < n) (hparent : (child - 1) / 2 = hole)
    (hleast : ∀ i, 0 < i → i < n → (i - 1) / 2 = hole → key child ≤ key i)
    (hle : key child ≤ key hole) (hhole : key' hole = key child) (hchild : key' child = key hole)
    (hother : ∀ i, i ≠ hole → i ≠ child → key' i = key i) : HeapExcept key' n child := by
  have hbelow : hole < child := by omega
  refine ⟨fun i hi hin hne => ?_, fun i hi hin hp _ => ?_⟩
  · by_cases h1 : i = child
    · rw [h1, hparent, hhole, hchild]
      exact hle
    by_cases h2 : (i - 1) / 2 = hole
    · rw [h2, hhole, hother i (by omega) h1]
      exact hleast i hi hin h2
    by_cases h3 : i = hole
    · -- the parent of the hole meets the child that moved up
      rw [h3, hhole, hother ((hole - 1) / 2) (by omega) (by omega)]
      exact h.grandparent_le child hpos hlt hparent (by omega)
    · rw [hother i h3 h1, hother _ h2 hne]
      exact h.parent_le i hi hin h2
  · rw [hparent, hhole, hother i (by omega) (by omega)]
    have hstep := h.parent_le i hi hin (by omega)
    rwa [hp] at hstep

/-! ### Raising an item -/

/-- A heap but for the place `hole`, whose key may be too small. -/
structure HeapRising (key : Nat → κ) (n hole : Nat) : Prop where
  parent_le : ∀ i, 0 < i → i < n → i ≠ hole → key ((i - 1) / 2) ≤ key i
  grandparent_le : ∀ i, 0 < i → i < n → (i - 1) / 2 = hole → 0 < hole →
    key ((hole - 1) / 2) ≤ key i

/-- An item behind a heap opens a hole there. -/
theorem IsHeap.append (h : IsHeap key n) (hsame : ∀ i, i < n → key' i = key i) :
    HeapRising key' (n + 1) n := by
  refine ⟨fun i hpos hi hne => ?_, fun i hpos hi hparent h0 => ?_⟩
  · rw [hsame i (by omega), hsame ((i - 1) / 2) (by omega)]
    exact h i hpos (by omega)
  · omega

/-- A hole whose key is no smaller than its parent's is no hole. -/
theorem HeapRising.close (h : HeapRising key n hole)
    (hparent : 0 < hole → hole < n → key ((hole - 1) / 2) ≤ key hole) : IsHeap key n := by
  intro i hpos hi
  by_cases hsame : i = hole
  · subst hsame
    exact hparent hpos hi
  · exact h.parent_le i hpos hi hsame

/-- Exchanging the hole with its parent moves the hole there. -/
theorem HeapRising.rise (h : HeapRising key n hole) (hpos : 0 < hole) (hlt : hole < n)
    (hle : key hole ≤ key ((hole - 1) / 2)) (hhole : key' hole = key ((hole - 1) / 2))
    (hparent : key' ((hole - 1) / 2) = key hole)
    (hother : ∀ i, i ≠ hole → i ≠ (hole - 1) / 2 → key' i = key i) :
    HeapRising key' n ((hole - 1) / 2) := by
  refine ⟨fun i hi hin hne => ?_, fun i hi hin hp h0 => ?_⟩
  · by_cases h1 : i = hole
    · rw [h1, hparent, hhole]
      exact hle
    by_cases h2 : (i - 1) / 2 = hole
    · rw [h2, hhole, hother i h1 hne]
      exact h.grandparent_le i hi hin h2 hpos
    by_cases h3 : (i - 1) / 2 = (hole - 1) / 2
    · -- the other child of the parent meets the item that comes up
      rw [h3, hparent, hother i h1 hne]
      have hstep := h.parent_le i hi hin h1
      rw [h3] at hstep
      exact le_trans hle hstep
    · rw [hother i h1 hne, hother _ h2 h3]
      exact h.parent_le i hi hin h1
  · have hup := h.parent_le ((hole - 1) / 2) h0 (by omega) (by omega)
    rw [hother (((hole - 1) / 2 - 1) / 2) (by omega) (by omega)]
    by_cases h1 : i = hole
    · rw [h1, hhole]
      exact hup
    · rw [hother i h1 (by omega)]
      have hstep := h.parent_le i hi hin h1
      rw [hp] at hstep
      exact le_trans hup hstep

end RunD
