/-
Dealing into buckets when the items are kept in columns.

Each column of a table is an array of its own, longer than the table perhaps,
and a dealing loop writes one entry into each.  What a column holds meanwhile is
said bucket by bucket (`Filled`): the places of a bucket that are written have
the entries of its items.  A write to the next free place of a bucket keeps that
(`Filled.write`), and once all items are dealt the column holds the entries of
the buckets one after the other (`Filled.take_eq`).
-/
import RunD.CountingScatter

namespace RunD

variable {α β : Type}

/-! ### Slices of a list after a write -/

theorem slice_set_of_outside {list : List β} {place start size : Nat} {x : β}
    (h : place < start ∨ start + size ≤ place) :
    ((list.set place x).drop start).take size = (list.drop start).take size := by
  rcases h with h | h
  · rw [List.drop_set_of_lt h]
  · by_cases hlt : place < start
    · rw [List.drop_set_of_lt hlt]
    · rw [List.drop_set, if_neg hlt, List.take_set_of_le (by omega)]

theorem slice_set_next {list : List β} {start size : Nat} {x : β} (h : start + size < list.length) :
    ((list.set (start + size) x).drop start).take (size + 1) =
      (list.drop start).take size ++ [x] := by
  rw [List.drop_set, if_neg (by omega), Nat.add_sub_cancel_left, List.take_add_one,
    List.take_set_of_le (Nat.le_refl _), List.getElem?_set_self (by rw [List.length_drop]; omega)]
  rfl

/-! ### Columns -/

/-- Where a bucket starts when the items are dealt. -/
def bucketStart (digit : α → Nat) (items : List α) (j : Nat) : Nat :=
  startOf (fun j => (inBucket digit items j).length) j

/-- The column has the entries of the items that were dealt, from where their buckets start. -/
def Filled (entry : α → β) (digit : α → Nat) (m : Nat) (items seen : List α) (column : List β) :
    Prop :=
  ∀ j < m, (column.drop (bucketStart digit items j)).take (inBucket digit seen j).length =
    (inBucket digit seen j).map entry

section Columns

variable {entry : α → β} {digit : α → Nat} {m : Nat} {items : List α}

/-- Buckets do not overlap. -/
theorem bucketStart_add_le {i j : Nat} (h : i < j) :
    bucketStart digit items i + (inBucket digit items i).length ≤ bucketStart digit items j := by
  rw [bucketStart, ← startOf_succ]
  exact startOf_mono _ h

theorem bucketStart_le (hdigit : ∀ x ∈ items, digit x < m) {j : Nat} (hj : j < m) :
    bucketStart digit items j + (inBucket digit items j).length ≤ items.length := by
  rw [← startOf_inBucket digit hdigit]
  exact bucketStart_add_le hj

/-- An item that is still to come has room in its bucket. -/
theorem inBucket_room {seen rest : List α} {x : α} (hsplit : items = seen ++ x :: rest) :
    (inBucket digit seen (digit x)).length < (inBucket digit items (digit x)).length := by
  have hwhole : inBucket digit items (digit x) = inBucket digit seen (digit x) ++
      (x :: inBucket digit rest (digit x)) := by
    rw [hsplit, inBucket, List.filter_append, List.filter_cons_of_pos (by simp)]
    rfl
  rw [hwhole, List.length_append, List.length_cons]
  omega

theorem inBucket_length_le {seen rest : List α} (hsplit : items = seen ++ rest) (j : Nat) :
    (inBucket digit seen j).length ≤ (inBucket digit items j).length := by
  rw [hsplit, inBucket, inBucket, List.filter_append, List.length_append]
  exact Nat.le_add_right _ _

/-- The next free place of an item's bucket is inside the column. -/
theorem place_lt (hdigit : ∀ x ∈ items, digit x < m) {seen rest : List α} {x : α}
    (hsplit : items = seen ++ x :: rest) :
    bucketStart digit items (digit x) + (inBucket digit seen (digit x)).length < items.length := by
  have hroom := @inBucket_room _ digit items seen rest x hsplit
  have hle := bucketStart_le hdigit (hdigit x (by rw [hsplit]; simp))
  omega

theorem Filled.start (column : List β) : Filled entry digit m items [] column := by
  intro j _
  rfl

/-- An entry written to the next free place of its item's bucket. -/
theorem Filled.write {seen rest : List α} {x : α} {column : List β}
    (h : Filled entry digit m items seen column) (hsplit : items = seen ++ x :: rest)
    (hdigit : ∀ x ∈ items, digit x < m) (hroom : items.length ≤ column.length) :
    Filled entry digit m items (seen ++ [x])
      (column.set (bucketStart digit items (digit x) + (inBucket digit seen (digit x)).length)
        (entry x)) := by
  intro j hj
  have hplace := place_lt hdigit hsplit
  rw [inBucket_concat]
  by_cases hsame : digit x = j
  · subst hsame
    rw [if_pos rfl, List.length_append, List.length_singleton, slice_set_next (by omega), h _ hj,
      List.map_append]
    rfl
  · rw [if_neg hsame, slice_set_of_outside ?_, h j hj]
    have hseen := @inBucket_length_le _ digit items seen (x :: rest) hsplit j
    have hown := @inBucket_room _ digit items seen rest x hsplit
    rcases Nat.lt_or_gt_of_ne hsame with hlt | hlt
    · have := @bucketStart_add_le _ digit items _ _ hlt
      exact Or.inl (by omega)
    · have := @bucketStart_add_le _ digit items _ _ hlt
      exact Or.inr (by omega)

/-- **When all items are dealt, a column has their entries bucket by bucket.** -/
theorem Filled.take_eq {column : List β} (h : Filled entry digit m items items column)
    (hdigit : ∀ x ∈ items, digit x < m) :
    column.take items.length = (byBucket digit m items).map entry := by
  have hprefix : ∀ k ≤ m, column.take (bucketStart digit items k) =
      (byBucket digit k items).map entry := by
    intro k hk
    induction k with
    | zero => rfl
    | succ k ih =>
        have hsplit : byBucket digit (k + 1) items =
            byBucket digit k items ++ inBucket digit items k := by
          rw [byBucket, List.range_succ, List.map_append, List.flatten_append]
          simp [byBucket]
        rw [bucketStart, startOf_succ, List.take_add, hsplit, List.map_append, ← h k hk,
          ← ih (by omega)]
        rfl
  rw [← hprefix m (Nat.le_refl _), bucketStart, startOf_inBucket digit hdigit]

end Columns

end RunD
