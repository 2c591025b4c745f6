/-
Balanced pairwise trees over a list.

One level combines the items in pairs, and a last item without a partner with
a padding value (`pairUp`); the tree repeats that until one item is left
(`pairwiseTree`).  For an associative operation whose padding is a right
identity the tree is the fold from the left (`pairwiseTree_eq_foldl`), so the
shape of the tree does not show.
-/
import Mathlib.Data.List.Basic
import Mathlib.Tactic.Common

namespace RunD

variable {α : Type} (op : α → α → α) (pad : α)

/-- One level of the tree. -/
def pairUp : List α → List α
  | [] => []
  | [a] => [op a pad]
  | a :: b :: rest => op a b :: pairUp rest

theorem length_pairUp (xs : List α) : (pairUp op pad xs).length = (xs.length + 1) / 2 := by
  induction xs using pairUp.induct with
  | case1 => simp [pairUp]
  | case2 a => simp [pairUp]
  | case3 a b rest ih =>
      rw [pairUp, List.length_cons, ih]
      simp only [List.length_cons]
      omega

/-- The balanced pairwise tree; an empty list has none. -/
def pairwiseTree (xs : List α) : Option α :=
  match xs with
  | [] => none
  | [a] => some a
  | a :: b :: rest => pairwiseTree (pairUp op pad (a :: b :: rest))
  termination_by xs.length
  decreasing_by
    rw [length_pairUp]
    simp only [List.length_cons]
    omega

theorem pairwiseTree_pairUp {xs : List α} (h : 2 ≤ xs.length) :
    pairwiseTree op pad xs = pairwiseTree op pad (pairUp op pad xs) := by
  match xs, h with
  | a :: b :: rest, _ => rw [pairwiseTree]

/-- The item a level puts at position `i`. -/
theorem getElem?_pairUp (xs : List α) (i : Nat) :
    (pairUp op pad xs)[i]? = xs[2 * i]?.map fun a => op a (xs[2 * i + 1]?.getD pad) := by
  induction xs using pairUp.induct generalizing i with
  | case1 => simp [pairUp]
  | case2 a =>
      rcases i with - | i
      · simp [pairUp]
      · simp [pairUp]
  | case3 a b rest ih =>
      rcases i with - | i
      · simp [pairUp]
      · rw [pairUp, List.getElem?_cons_succ, ih]
        rfl

section Associative

variable {op pad} (hassoc : ∀ a b c, op (op a b) c = op a (op b c)) (hpad : ∀ a, op a pad = a)
include hassoc hpad

/-- A level keeps the fold from the left. -/
theorem foldl_pairUp (acc : α) (xs : List α) :
    (pairUp op pad xs).foldl op acc = xs.foldl op acc := by
  induction xs using pairUp.induct generalizing acc with
  | case1 => rfl
  | case2 a => simp [pairUp, hpad]
  | case3 a b rest ih => simp [pairUp, ih, hassoc]

/-- **The balanced tree of an associative operation is its fold from the left.** -/
theorem pairwiseTree_eq_foldl (a : α) (xs : List α) :
    pairwiseTree op pad (a :: xs) = some (xs.foldl op a) := by
  induction hn : xs.length using Nat.strongRecOn generalizing a xs with
  | ind n ih =>
      match xs with
      | [] => rw [pairwiseTree, List.foldl_nil]
      | b :: rest =>
          have hlen : (pairUp op pad rest).length < n := by
            rw [length_pairUp]
            simp only [List.length_cons] at hn
            omega
          rw [pairwiseTree, pairUp, ih _ hlen _ _ rfl, foldl_pairUp hassoc hpad, List.foldl_cons]

end Associative

end RunD
