/-
Stable sorting, and how it is made of passes.

A list is sorted stably by a rank when the ranks rise along it and the items of
each rank are those of the original list, in their old order.  Dealing a list
that is sorted stably by the low part of a rank into buckets by the next digit
sorts it stably by both (`StableBy.deal`).  Starting from the list itself, one
pass for each digit, the least significant first, sorts it by all of them.
Sorting stably by one key after another sorts by the keys one after the other,
the last key first (`StableBy.pairwise`).
-/
import Mathlib.Algebra.Order.BigOperators.Group.List
import Mathlib.Algebra.Order.Group.Nat
import RunD.CountingScatter

namespace RunD

variable {α : Type}

/-- A stable sort of a list by a rank. -/
structure StableBy (rank : α → Nat) (items sorted : List α) : Prop where
  ordered : sorted.Pairwise fun a b => rank a ≤ rank b
  kept : ∀ r, (sorted.filter fun x => rank x = r) = items.filter fun x => rank x = r

namespace StableBy

variable {rank low digit : α → Nat} {items sorted : List α}

/-- Nothing distinguishes the items yet. -/
theorem refl (items : List α) : StableBy (fun _ => 0) items items where
  ordered := List.pairwise_of_forall fun _ _ => Nat.le_refl 0
  kept := fun _ => rfl

/-- A stable sort has the items it sorts. -/
theorem mem_iff (h : StableBy rank items sorted) {x : α} : x ∈ sorted ↔ x ∈ items := by
  have hkept := congrArg (x ∈ ·) (h.kept (rank x))
  simpa using hkept

/-- A stable sort rearranges the items. -/
theorem perm (h : StableBy rank items sorted) : sorted.Perm items := by
  obtain ⟨m, hm⟩ : ∃ m, ∀ x ∈ items, rank x < m := by
    refine ⟨(items.map rank).sum + 1, ?_⟩
    intro x hx
    have hle := List.le_sum_of_mem (@List.mem_map_of_mem _ _ _ _ rank hx)
    omega
  -- both are the same buckets one after the other
  have hsame : byBucket rank m sorted = byBucket rank m items := by
    rw [byBucket, byBucket]
    congr 1
    apply List.map_congr_left
    intro j _
    exact h.kept j
  have hsorted := byBucket_perm rank fun x hx => hm x (h.mem_iff.mp hx)
  rw [hsame] at hsorted
  exact hsorted.symm.trans (byBucket_perm rank hm)

/-- The items of one bucket that also pass a test, among all buckets. -/
theorem filter_byBucket (digit : α → Nat) (p : α → Bool) (j m : Nat) (items : List α) :
    ((byBucket digit m items).filter fun x => decide (digit x = j) && p x) =
      if j < m then items.filter fun x => decide (digit x = j) && p x else [] := by
  induction m with
  | zero => rfl
  | succ m ih =>
      have hsplit : byBucket digit (m + 1) items =
          byBucket digit m items ++ inBucket digit items m := by
        rw [byBucket, List.range_succ, List.map_append, List.flatten_append]
        simp [byBucket]
      rw [hsplit, List.filter_append, ih, inBucket, List.filter_filter]
      by_cases hj : j = m
      · rw [if_neg (by omega), if_pos (by omega), List.nil_append]
        apply List.filter_congr
        intro x _
        by_cases hx : digit x = j
        · simp [hx, hj]
        · simp [hx]
      · have hnone : (items.filter fun x =>
            (decide (digit x = j) && p x) && decide (digit x = m)) = [] := by
          rw [List.filter_eq_nil_iff]
          intro x _ hx
          simp only [Bool.and_eq_true, decide_eq_true_iff] at hx
          omega
        rw [hnone, List.append_nil]
        by_cases hlt : j < m
        · rw [if_pos hlt, if_pos (by omega)]
        · rw [if_neg hlt, if_neg (by omega)]

/-- **Dealing by the next digit sorts by the digit and what is sorted already.** -/
theorem deal (h : StableBy low items sorted) {base m : Nat} (hlow : ∀ x ∈ items, low x < base)
    (hdigit : ∀ x ∈ items, digit x < m) :
    StableBy (fun x => digit x * base + low x) items (byBucket digit m sorted) := by
  constructor
  · rw [byBucket, List.pairwise_flatten]
    constructor
    · intro bucket hbucket
      obtain ⟨j, -, rfl⟩ := List.mem_map.mp hbucket
      -- within a bucket the digits are the same
      rw [inBucket]
      refine (h.ordered.filter fun x => decide (digit x = j)).imp_of_mem ?_
      intro a b ha hb hle
      have ha := (List.mem_filter.mp ha).2
      have hb := (List.mem_filter.mp hb).2
      rw [decide_eq_true_iff] at ha hb
      rw [ha, hb]
      omega
    · rw [List.pairwise_map]
      refine List.pairwise_lt_range.imp ?_
      intro j j' hlt a ha b hb
      rw [inBucket, List.mem_filter, decide_eq_true_iff] at ha hb
      obtain ⟨ha, rfl⟩ := ha
      obtain ⟨hb, rfl⟩ := hb
      have hlow' := hlow a (h.mem_iff.mp ha)
      calc digit a * base + low a ≤ digit a * base + base := by omega
        _ = (digit a + 1) * base := by rw [Nat.add_mul, Nat.one_mul]
        _ ≤ digit b * base := Nat.mul_le_mul_right _ hlt
        _ ≤ digit b * base + low b := Nat.le_add_right _ _
  · intro r
    have hmem : ∀ x ∈ byBucket digit m sorted, x ∈ items := by
      intro x hx
      rw [byBucket, List.mem_flatten] at hx
      obtain ⟨bucket, hbucket, hx⟩ := hx
      obtain ⟨j, -, rfl⟩ := List.mem_map.mp hbucket
      exact h.mem_iff.mp (List.mem_filter.mp hx).1
    -- a rank is a digit and a low rank
    have hsplit : ∀ x ∈ items, decide (digit x * base + low x = r) =
        (decide (digit x = r / base) && decide (low x = r % base)) := by
      intro x hx
      have hx := hlow x hx
      rw [← Bool.decide_and, decide_eq_decide]
      constructor
      · rintro rfl
        have hpos : 0 < base := by omega
        rw [Nat.mul_comm, Nat.mul_add_div hpos, Nat.mul_add_mod, Nat.div_eq_of_lt hx,
          Nat.mod_eq_of_lt hx]
        exact ⟨rfl, rfl⟩
      · rintro ⟨hhigh, hrest⟩
        rw [hhigh, hrest, Nat.mul_comm]
        exact Nat.div_add_mod r base
    have hswap : ∀ list : List α,
        (list.filter fun x => decide (digit x = r / base) && decide (low x = r % base)) =
          (list.filter fun x => decide (low x = r % base)).filter
            fun x => decide (digit x = r / base) := by
      intro list
      rw [List.filter_filter]
    rw [List.filter_congr fun x hx => hsplit x (hmem x hx), filter_byBucket, hswap sorted,
      List.filter_congr hsplit, hswap items, h.kept]
    by_cases hj : r / base < m
    · rw [if_pos hj]
    · rw [if_neg hj, eq_comm, List.filter_eq_nil_iff]
      intro x hx hdigit'
      have hx := hdigit x (List.mem_filter.mp hx).1
      rw [decide_eq_true_iff] at hdigit'
      omega

/-- Only the order of the ranks matters, not the ranks themselves. -/
theorem congr_rank {rank' : α → Nat} (h : StableBy rank items sorted)
    (hsame : ∀ x ∈ items, ∀ y ∈ items, rank x ≤ rank y ↔ rank' x ≤ rank' y) :
    StableBy rank' items sorted := by
  constructor
  · refine h.ordered.imp_of_mem ?_
    intro a b ha hb hle
    exact (hsame a (h.mem_iff.mp ha) b (h.mem_iff.mp hb)).mp hle
  · intro r
    by_cases hr : ∃ x ∈ items, rank' x = r
    · obtain ⟨x, hx, rfl⟩ := hr
      -- the items of one new rank are the items of one old rank
      have hrank : ∀ y ∈ items, decide (rank' y = rank' x) = decide (rank y = rank x) := by
        intro y hy
        have hxy := hsame x hx y hy
        have hyx := hsame y hy x hx
        apply decide_eq_decide.mpr
        omega
      rw [List.filter_congr hrank,
        List.filter_congr fun y hy => hrank y (h.mem_iff.mp hy), h.kept]
    · have hnone : ∀ y ∈ items, ¬ rank' y = r := fun y hy heq => hr ⟨y, hy, heq⟩
      have hempty : ∀ list : List α, (∀ y ∈ list, y ∈ items) →
          (list.filter fun y => decide (rank' y = r)) = [] := by
        intro list hlist
        apply List.filter_eq_nil_iff.mpr
        intro y hy
        simp [hnone y (hlist y hy)]
      rw [hempty sorted fun y hy => h.mem_iff.mp hy, hempty items fun y hy => hy]

/-- **A stable sort keeps what the items were sorted by before**, among items of one rank. -/
theorem pairwise {below : α → α → Prop} (h : StableBy rank items sorted)
    (hitems : items.Pairwise below) :
    sorted.Pairwise fun a b => rank a < rank b ∨ rank a = rank b ∧ below a b := by
  rw [List.pairwise_iff_forall_sublist]
  intro a b hab
  have hle : rank a ≤ rank b := List.pairwise_iff_forall_sublist.mp h.ordered hab
  rcases Nat.lt_or_eq_of_le hle with hlt | heq
  · exact Or.inl hlt
  · refine Or.inr ⟨heq, ?_⟩
    -- two items of one rank stand in the same order among those of this rank
    have hsub := hab.filter fun x => decide (rank x = rank a)
    rw [h.kept, List.filter_cons_of_pos (by simp), List.filter_cons_of_pos (by simp [heq])] at hsub
    exact List.pairwise_iff_forall_sublist.mp hitems (hsub.trans List.filter_sublist)

end StableBy

end RunD
