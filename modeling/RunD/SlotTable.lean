/-
A table that keeps at most one value for every owner, in the owner's slot.

`Tabled slot table entries` says that the table holds these entries, each in its
owner's slot, and nothing else.  It is kept when a value is put into a free slot
and when an entry whose slot no other entry has is taken out.
-/
import RunD.LinkedQueue

namespace RunD

variable {α : Type}

/-- What the table holds for an owner. -/
def entryAt (slot : Nat → Nat) (table : List (Option α)) (t : Nat) : Option α :=
  (table[slot t]?).join

/-- The table holds the entries in the slots of their owners, and nothing else. -/
structure Tabled (slot : Nat → Nat) (table : List (Option α)) (entries : List (Nat × α)) : Prop where
  entry : ∀ t x, (t, x) ∈ entries → table[slot t]? = some (some x)
  owner : ∀ j x, table[j]? = some (some x) → ∃ t, slot t = j ∧ (t, x) ∈ entries

/-- No entry has its owner's slot. -/
def Vacant (slot : Nat → Nat) (entries : List (Nat × α)) (t : Nat) : Prop :=
  ∀ u x, (u, x) ∈ entries → slot u ≠ slot t

/-- No other owner has this one's slot. -/
def Alone (slot : Nat → Nat) (entries : List (Nat × α)) (t : Nat) : Prop :=
  ∀ u x, (u, x) ∈ entries → slot u = slot t → u = t

namespace Tabled

variable {slot : Nat → Nat} {table : List (Option α)} {entries others before rest : List (Nat × α)}
variable {t : Nat} {x : α}

theorem replicate (slot : Nat → Nat) (n : Nat) :
    Tabled slot (List.replicate n (none : Option α)) [] where
  entry := fun t x hx => absurd hx List.not_mem_nil
  owner := by
    intro j x hx
    rw [List.getElem?_replicate] at hx
    split at hx
    · cases hx
    · cases hx

/-- Room is made only where there was none. -/
theorem ensure (h : Tabled slot table entries) {size : Nat}
    (hsize : table.length = 0 ∨ table.length = size) :
    Tabled slot (resized table size none) entries := by
  rcases hsize with hzero | hsize
  · have htable := List.eq_nil_of_length_eq_zero hzero
    subst htable
    have hentries : entries = [] := by
      rw [List.eq_nil_iff_forall_not_mem]
      rintro ⟨t, x⟩ hx
      have := h.entry t x hx
      rw [List.getElem?_nil] at this
      cases this
    subst hentries
    rw [resized_nil]
    exact replicate slot size
  · rw [resized_of_length hsize]
    exact h

theorem entryAt_eq (h : Tabled slot table entries) (hx : (t, x) ∈ entries) :
    entryAt slot table t = some x := by
  rw [entryAt, h.entry t x hx]
  rfl

theorem entryAt_vacant (h : Tabled slot table entries) (hfree : Vacant slot entries t) :
    entryAt slot table t = none := by
  rw [entryAt]
  rcases hread : table[slot t]? with - | (- | y)
  · rfl
  · rfl
  · obtain ⟨u, hu, hmem⟩ := h.owner _ _ hread
    exact absurd hu (hfree u y hmem)

/-- A value is put into a free slot. -/
theorem put (h : Tabled slot table entries) (hroom : slot t < table.length)
    (hfree : Vacant slot entries t) (x : α) :
    Tabled slot (table.set (slot t) (some x)) (entries ++ [(t, x)]) where
  entry := by
    intro u y hu
    rcases List.mem_append.mp hu with hold | hnew
    · rw [List.getElem?_set_ne fun heq => hfree u y hold heq.symm]
      exact h.entry u y hold
    · cases List.mem_singleton.mp hnew
      exact List.getElem?_set_self hroom
  owner := by
    intro j y hy
    by_cases hj : slot t = j
    · subst hj
      rw [List.getElem?_set_self hroom] at hy
      cases hy
      exact ⟨t, rfl, List.mem_append_right _ (List.mem_singleton_self _)⟩
    · rw [List.getElem?_set_ne hj] at hy
      obtain ⟨u, hu, hmem⟩ := h.owner j y hy
      exact ⟨u, hu, List.mem_append_left _ hmem⟩

/-- An entry is taken out of its slot. -/
theorem take (h : Tabled slot table (before ++ (t, x) :: rest))
    (hfree : Vacant slot (before ++ rest) t) :
    Tabled slot (table.set (slot t) none) (before ++ rest) where
  entry := by
    intro u y hu
    rw [List.getElem?_set_ne fun heq => hfree u y hu heq.symm]
    apply h.entry
    rcases List.mem_append.mp hu with hb | hr
    · exact List.mem_append_left _ hb
    · exact List.mem_append_right _ (List.mem_cons_of_mem _ hr)
  owner := by
    intro j y hy
    have hroom : slot t < table.length := by
      have := h.entry t x (List.mem_append_right _ (List.mem_cons_self ..))
      exact (List.getElem?_eq_some_iff.mp this).1
    by_cases hj : slot t = j
    · subst hj
      rw [List.getElem?_set_self hroom] at hy
      cases hy
    · rw [List.getElem?_set_ne hj] at hy
      obtain ⟨u, hu, hmem⟩ := h.owner j y hy
      refine ⟨u, hu, ?_⟩
      rcases List.mem_append.mp hmem with hb | hr
      · exact List.mem_append_left _ hb
      · rcases List.mem_cons.mp hr with heq | hr
        · cases heq
          exact absurd hu hj
        · exact List.mem_append_right _ hr

/-- The values in the table are those of the entries. -/
theorem perm (h : Tabled slot table entries) (hnodup : (entries.map fun e => slot e.1).Nodup) :
    (table.filterMap id).Perm (entries.map Prod.snd) := by
  induction entries generalizing table with
  | nil =>
      have hnone : table.filterMap id = [] := by
        rw [List.filterMap_eq_nil_iff]
        intro entry hentry
        obtain ⟨j, hj⟩ := List.mem_iff_getElem?.mp hentry
        rcases entry with - | x
        · rfl
        · obtain ⟨t, -, hmem⟩ := h.owner j x hj
          exact absurd hmem List.not_mem_nil
      rw [hnone]
      exact List.Perm.refl _
  | cons e entries ih =>
      obtain ⟨t, x⟩ := e
      rw [List.map_cons, List.nodup_cons] at hnodup
      have hfree : Vacant slot entries t := by
        intro u y hu heq
        exact hnodup.1 (heq ▸ List.mem_map_of_mem (f := fun e : Nat × α => slot e.1) hu)
      have htaken : Tabled slot (table.set (slot t) none) entries :=
        take (show Tabled slot table ([] ++ (t, x) :: entries) from h) hfree
      have hrest := ih htaken hnodup.2
      -- the slot of the first entry is the only one that differs
      obtain ⟨hroom, hslot⟩ := List.getElem?_eq_some_iff.mp (h.entry t x (List.mem_cons_self ..))
      have htable : table = table.take (slot t) ++ some x :: table.drop (slot t + 1) := by
        rw [← hslot, List.getElem_cons_drop, List.take_append_drop]
      rw [List.set_eq_take_append_cons_drop, if_pos hroom, List.filterMap_append,
        List.filterMap_cons_none rfl] at hrest
      rw [htable, List.filterMap_append, List.filterMap_cons_some (f := id) rfl, List.map_cons]
      exact List.perm_middle.trans (hrest.cons x)

/-! ### The entries of one owner -/

/-- What the table holds for an owner is its entry. -/
theorem entryAt_eq_lookup (h : Tabled slot table entries) (halone : Alone slot entries t) :
    entryAt slot table t = entries.lookup t := by
  rcases hread : entries.lookup t with - | x
  · apply h.entryAt_vacant
    intro u y hu heq
    cases halone u y hu heq
    rw [List.lookup_eq_none_iff] at hread
    exact absurd (hread _ hu) (by simp)
  · obtain ⟨before, rest, hsplit, -⟩ := List.lookup_eq_some_iff.mp hread
    apply h.entryAt_eq
    rw [hsplit]
    exact List.mem_append_right _ (List.mem_cons_self ..)

/-- An owner's slot is cleared. -/
theorem drop (h : Tabled slot table entries) (halone : Alone slot entries t) :
    Tabled slot (table.set (slot t) none) (entries.filter (·.1 != t)) where
  entry := by
    intro u y hu
    obtain ⟨hmem, hne⟩ := List.mem_filter.mp hu
    have hother : u ≠ t := bne_iff_ne.mp hne
    rw [List.getElem?_set_ne fun heq => hother (halone u y hmem heq.symm)]
    exact h.entry u y hmem
  owner := by
    intro j y hy
    by_cases hj : slot t = j
    · subst hj
      rcases Nat.lt_or_ge (slot t) table.length with hroom | hout
      · rw [List.getElem?_set_self hroom] at hy
        cases hy
      · rw [List.getElem?_eq_none (by rw [List.length_set]; exact hout)] at hy
        cases hy
    · rw [List.getElem?_set_ne hj] at hy
      obtain ⟨u, hu, hmem⟩ := h.owner j y hy
      refine ⟨u, hu, List.mem_filter.mpr ⟨hmem, bne_iff_ne.mpr ?_⟩⟩
      rintro rfl
      exact hj hu

end Tabled

theorem mem_of_lookup {entries : List (Nat × α)} {t : Nat} {x : α} (h : entries.lookup t = some x) :
    (t, x) ∈ entries := by
  obtain ⟨before, rest, hsplit, -⟩ := List.lookup_eq_some_iff.mp h
  rw [hsplit]
  exact List.mem_append_right _ (List.mem_cons_self ..)

theorem notMem_of_lookup {entries : List (Nat × α)} {t : Nat} (h : entries.lookup t = none) (x : α) :
    (t, x) ∉ entries := by
  intro hx
  have hne := List.lookup_eq_none_iff.mp h (t, x) hx
  simp at hne

/-- The entries of the others, where an owner has one. -/
theorem filter_split {before rest : List (Nat × α)} {t : Nat} {x : α}
    (ht : t ∉ (before ++ rest).map Prod.fst) :
    (before ++ (t, x) :: rest).filter (·.1 != t) = before ++ rest := by
  rw [List.filter_append, List.filter_cons_of_neg (by simp), ← List.filter_append,
    List.filter_eq_self]
  intro e he
  apply bne_iff_ne.mpr
  rintro rfl
  exact ht (List.mem_map_of_mem he)

/-- The entries of the others, where an owner has none. -/
theorem filter_absent {entries : List (Nat × α)} {t : Nat} (ht : entries.lookup t = none) :
    entries.filter (·.1 != t) = entries := by
  rw [List.filter_eq_self]
  rintro ⟨u, x⟩ hu
  rw [bne_iff_ne]
  rintro rfl
  exact notMem_of_lookup ht x hu

end RunD
