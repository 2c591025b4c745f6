/-
Sizes and spans in checked computations.

A 64-bit sum, product or difference that wraps is a fault here, like a place
outside an array, and so is a span that is not inside its array.  A program
proved to be free of faults therefore does with machine words what it would do
with numbers.
-/
import RunD.Checked
import Mathlib.Algebra.Order.Ring.Nat

namespace RunD

variable {ε α σ : Type}

/-! ### Sizes -/

/-- `a - b`. -/
def sizeSub (a b : Nat) : Checked ε Nat :=
  if b ≤ a then pure (a - b) else Except.error Stop.outOfBounds

/-- `a + b`. -/
def sizeAdd (a b : Nat) : Checked ε Nat :=
  if a + b < 2 ^ 64 then pure (a + b) else Except.error Stop.outOfBounds

/-- `a * b`. -/
def sizeMul (a b : Nat) : Checked ε Nat :=
  if a * b < 2 ^ 64 then pure (a * b) else Except.error Stop.outOfBounds

theorem sizeSub_eq {a b : Nat} (h : b ≤ a) : (sizeSub a b : Checked ε Nat) = Except.ok (a - b) :=
  if_pos h

theorem sizeAdd_eq {a b : Nat} (h : a + b < 2 ^ 64) :
    (sizeAdd a b : Checked ε Nat) = Except.ok (a + b) :=
  if_pos h

theorem sizeMul_eq {a b : Nat} (h : a * b < 2 ^ 64) :
    (sizeMul a b : Checked ε Nat) = Except.ok (a * b) :=
  if_pos h

/-! ### Spans -/

/-- `xs.subspan(offset, length)`. -/
def subspan (xs : List α) (offset length : Nat) : Checked ε (List α) :=
  if offset + length ≤ xs.length then pure ((xs.drop offset).take length)
  else Except.error Stop.outOfBounds

/-- Writing `written` at `xs.begin() + offset`. -/
def overwrite (xs : List α) (offset : Nat) (written : List α) : Checked ε (List α) :=
  if offset + written.length ≤ xs.length then
    pure (xs.take offset ++ written ++ xs.drop (offset + written.length))
  else Except.error Stop.outOfBounds

theorem subspan_eq {xs : List α} {offset length : Nat} (h : offset + length ≤ xs.length) :
    (subspan xs offset length : Checked ε (List α)) = Except.ok ((xs.drop offset).take length) :=
  if_pos h

theorem overwrite_eq {xs written : List α} {offset : Nat} (h : offset + written.length ≤ xs.length) :
    (overwrite xs offset written : Checked ε (List α)) =
      Except.ok (xs.take offset ++ written ++ xs.drop (offset + written.length)) :=
  if_pos h

/-! ### Filling an array -/

theorem length_fill {v : Nat → α} {output : List α} {n : Nat} (hn : n ≤ output.length) :
    ((List.range n).map v ++ output.drop n).length = output.length := by
  rw [List.length_append, List.length_map, List.length_range, List.length_drop]
  omega

/-- One more place of an array that is filled from its front. -/
theorem assign_fill {v : Nat → α} {output : List α} {n : Nat} (hn : n < output.length) :
    (assign ((List.range n).map v ++ output.drop n) n (v n) : Checked ε (List α)) =
      Except.ok ((List.range (n + 1)).map v ++ output.drop (n + 1)) := by
  have hat : ((List.range n).map v).length = n := by rw [List.length_map, List.length_range]
  have hlen : n < ((List.range n).map v ++ output.drop n).length := by
    rw [length_fill (by omega)]
    exact hn
  rw [assign_of_lt hlen, List.set_append, if_neg (by omega), hat, Nat.sub_self,
    List.drop_eq_getElem_cons hn, List.set_cons_zero, List.range_succ, List.map_append,
    List.append_assoc]
  rfl

/-- A loop that assigns a value to every place up to `n`, the values depending on nothing that the
loop changes. -/
theorem forRange_fill {step : Nat → List α → Checked ε (List α)} {v : Nat → α} {output : List α}
    {n : Nat} (hn : n ≤ output.length)
    (hstep : ∀ i xs, i < n → xs.length = output.length → step i xs = assign xs i (v i)) :
    forRange n step output = Except.ok ((List.range n).map v ++ output.drop n) := by
  induction n with
  | zero => rfl
  | succ n ih =>
      rw [forRange_succ, ih (by omega) fun i xs hi => hstep i xs (by omega), ok_bind,
        hstep n _ (by omega) (length_fill (by omega)), assign_fill (by omega)]

end RunD
