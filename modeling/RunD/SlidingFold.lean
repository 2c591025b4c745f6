/-
Folds over the stretches of a sequence, and two ways to get the fold over a
window without going over it.

The first needs an idempotent operation.  The sequence is cut into blocks of
the window's length; a window that does not begin a block reaches into exactly
one more, so it is a suffix of one block and a prefix of the next
(`stretch_blocks`).

The second needs a commutative group.  A window is the difference of two
totals, and the total of a sequence that was padded on both sides is a total
of the sequence and multiples of the two paddings (`stretch_padded`).
-/
import Mathlib.Algebra.Group.Basic
import Mathlib.Tactic.Abel

namespace RunD.SlidingFold

variable {α : Type*}

/-! ### Stretches -/

/-- The fold of `f` over the `length` places from `start` on. -/
def stretch (op : α → α → α) (e : α) (f : Nat → α) (start : Nat) : Nat → α
  | 0 => e
  | length + 1 => op (stretch op e f start length) (f (start + length))

/-- An associative operation and its unit. -/
structure Monoidal (op : α → α → α) (e : α) : Prop where
  assoc : ∀ a b c, op (op a b) c = op a (op b c)
  unit_op : ∀ a, op e a = a
  op_unit : ∀ a, op a e = a

section Stretch

variable {op : α → α → α} {e : α} {f : Nat → α}

@[simp] theorem stretch_zero (start : Nat) : stretch op e f start 0 = e := rfl

theorem stretch_succ (start length : Nat) :
    stretch op e f start (length + 1) = op (stretch op e f start length) (f (start + length)) := rfl

variable (h : Monoidal op e)

include h

theorem Monoidal.stretch_one (start : Nat) : stretch op e f start 1 = f start := by
  rw [stretch_succ, stretch_zero, h.unit_op, Nat.add_zero]

theorem Monoidal.stretch_append (start m n : Nat) :
    stretch op e f start (m + n) = op (stretch op e f start m) (stretch op e f (start + m) n) := by
  induction n with
  | zero => rw [Nat.add_zero, stretch_zero, h.op_unit]
  | succ n ih => rw [← Nat.add_assoc, stretch_succ, ih, stretch_succ, h.assoc, Nat.add_assoc]

/-- A stretch taken from its other end. -/
theorem Monoidal.stretch_cons (start length : Nat) :
    stretch op e f start (length + 1) = op (f start) (stretch op e f (start + 1) length) := by
  rw [Nat.add_comm, h.stretch_append, h.stretch_one]

/-- **A window is a suffix of a block and a prefix of the block at its end**; when it is a block
itself these are the same. -/
theorem Monoidal.stretch_blocks (idem : ∀ a, op a a = a) {window left right span : Nat}
    (hright : right + 1 = left + window) (hpos : 0 < window) (hspan : right < span) :
    op
        (stretch op e f left (min span (left / window * window + window) - left))
        (stretch op e f (right / window * window) (right + 1 - right / window * window)) =
      stretch op e f left window := by
  have hdiv := Nat.div_add_mod left window
  have hmod := Nat.mod_lt left hpos
  rw [Nat.mul_comm] at hdiv
  by_cases hblock : left % window = 0
  · have hend : right / window = left / window := by
      rw [Nat.div_eq_iff hpos]
      omega
    rw [hend, show left / window * window = left by omega,
      show min span (left + window) - left = window by omega,
      show right + 1 - left = window by omega, idem]
  · have hnext : right / window = left / window + 1 := by
      rw [Nat.div_eq_iff hpos, Nat.add_mul]
      omega
    have hcut : right / window * window = left / window * window + window := by
      rw [hnext, Nat.add_mul, Nat.one_mul]
    rw [hcut]
    generalize left / window * window = block at hdiv hcut
    have hsum := h.stretch_append (f := f) left (block + window - left) (right + 1 - (block + window))
    rw [show left + (block + window - left) = block + window by omega,
      show block + window - left + (right + 1 - (block + window)) = window by omega] at hsum
    rw [show min span (block + window) - left = block + window - left by omega, hsum]

end Stretch

/-! ### Padded sequences -/

/-- `count` items of a sequence between two paddings, the first of `pad` places. -/
def padded (left right : α) (pad count : Nat) (f : Nat → α) (place : Nat) : α :=
  if place < pad then left else if place - pad < count then f (place - pad) else right

section Group

variable [AddCommGroup α] {f : Nat → α}

theorem monoidal_add : Monoidal (· + ·) (0 : α) := ⟨add_assoc, zero_add, add_zero⟩

/-- The sum of the first items. -/
def total (f : Nat → α) (n : Nat) : α := stretch (· + ·) 0 f 0 n

theorem total_succ (f : Nat → α) (n : Nat) : total f (n + 1) = total f n + f n := by
  rw [total, stretch_succ, Nat.zero_add]
  rfl

theorem stretch_eq_sub (f : Nat → α) (start length : Nat) :
    stretch (· + ·) 0 f start length = total f (start + length) - total f start := by
  rw [total, total, monoidal_add.stretch_append 0 start length, Nat.zero_add]
  abel

theorem total_padded (left right : α) (pad count : Nat) (f : Nat → α) (n : Nat) :
    total (padded left right pad count f) n =
      min n pad • left + total f (min (n - pad) count) + (n - pad - count) • right := by
  induction n with
  | zero =>
      rw [Nat.zero_min, Nat.zero_sub, Nat.zero_min, Nat.zero_sub, zero_nsmul, zero_nsmul]
      simp [total]
  | succ n ih =>
      rw [total_succ, ih, padded]
      split_ifs with hleft hinside
      · rw [show min (n + 1) pad = min n pad + 1 by omega, show n + 1 - pad = 0 by omega,
          show n - pad = 0 by omega, succ_nsmul]
        abel
      · rw [show min (n + 1) pad = min n pad by omega,
          show min (n + 1 - pad) count = min (n - pad) count + 1 by omega, total_succ,
          show min (n - pad) count = n - pad by omega, show n + 1 - pad - count = 0 by omega,
          show n - pad - count = 0 by omega]
        abel
      · rw [show min (n + 1) pad = min n pad by omega,
          show min (n + 1 - pad) count = min (n - pad) count by omega,
          show n + 1 - pad - count = (n - pad - count) + 1 by omega, succ_nsmul]
        abel

/-- **A window over a padded sequence**, by two totals and multiples of the paddings, for a window
that reaches beyond the first padding and begins before the second. -/
theorem stretch_padded (left right : α) {pad count window start : Nat} (f : Nat → α)
    (hpad : pad ≤ start + window) (hstart : start ≤ pad + count) :
    stretch (· + ·) 0 (padded left right pad count f) start window =
      total f (min (start + window - pad) count) - total f (start - pad) +
        (pad - start) • left + (start + window - pad - count) • right := by
  rw [stretch_eq_sub, total_padded, total_padded, show min (start + window) pad = pad by omega,
    show start - pad - count = 0 by omega, show min (start - pad) count = start - pad by omega]
  have hsplit : pad • left = min start pad • left + (pad - start) • left := by
    rw [← add_nsmul]
    congr 1
    omega
  rw [hsplit, zero_nsmul]
  abel

end Group

end RunD.SlidingFold
