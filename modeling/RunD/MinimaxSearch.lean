/-
What the two capacity planners share: the capacity of a slot, the scale of the
limits, and the search for a limit.

A limit is work (or units) per capacity, scaled by `kRatioScale`.  Both planners
search the limits by halving an interval with a feasibility test; `searchLimit`
is that loop with the test as a parameter, and `searchLimit_eq` says that it is
`bisect` on the limits as natural numbers.
-/
import RunD.Bisection
import RunD.CheckedWord
import RunD.PacketWork

namespace RunD.Planner

variable {ε : Type}

/-! ### Capacities -/

/-- `kRatioScale`. -/
def kRatioScale : UInt64 := 1000000

/-- The scale as a natural number. -/
def ratioScale : ℕ := 1000000

/-- A limit splits into whole scales and a rest. -/
theorem mul_div_ratioScale (limit capacity : ℕ) :
    limit * capacity / ratioScale =
      limit / ratioScale * capacity + limit % ratioScale * capacity / ratioScale := by
  have hlimit := Nat.div_add_mod limit ratioScale
  calc limit * capacity / ratioScale
      = (ratioScale * (limit / ratioScale * capacity) + limit % ratioScale * capacity) /
          ratioScale := by rw [← Nat.mul_assoc, ← Nat.add_mul, hlimit]
    _ = _ := Nat.mul_add_div (by decide) _ _

/-- `CapacityForSlot`. -/
def capacityForSlot (request : PartitionRequest) (slot : ℕ) : Checked ε UInt32 :=
  fetch request.workerCapacityMilli (slot % (max 1 request.executionWidth).toNat)

/-- The capacity of a slot as a natural number. -/
def slotCapacity (request : PartitionRequest) (slot : ℕ) : ℕ :=
  (request.workerCapacityMilli.getD (slot % (max 1 request.executionWidth).toNat) 0).toNat

/-- The first `k` slots have capacities, none of them zero. -/
def HasCapacities (request : PartitionRequest) (k : ℕ) : Prop :=
  ∀ slot, slot < k →
    slot % (max 1 request.executionWidth).toNat < request.workerCapacityMilli.length ∧
      0 < slotCapacity request slot

theorem capacityForSlot_eq {request : PartitionRequest} {k slot : ℕ}
    (h : HasCapacities request k) (hslot : slot < k) :
    ∃ capacity : UInt32, (capacityForSlot request slot : Checked ε UInt32) = Except.ok capacity ∧
      capacity.toNat = slotCapacity request slot := by
  obtain ⟨capacity, hget⟩ : ∃ capacity,
      request.workerCapacityMilli[slot % (max 1 request.executionWidth).toNat]? = some capacity :=
    ⟨_, List.getElem?_eq_getElem (h slot hslot).1⟩
  refine ⟨capacity, fetch_of_lt hget, ?_⟩
  rw [slotCapacity, List.getD_eq_getElem?_getD, hget]
  rfl

/-! ### The search -/

/-- `while (low < high)`, with `fuel` turns; the interval that it ends with. -/
def searchLimit (feasible : UInt64 → Checked ε Bool) :
    ℕ → UInt64 → UInt64 → Checked ε (UInt64 × UInt64)
  | 0, low, high => pure (low, high)
  | fuel + 1, low, high =>
      if low < high then do
        let mid := low + (high - low) / 2
        let fits ← feasible mid
        if fits then searchLimit feasible fuel low mid
        else searchLimit feasible fuel (mid + 1) high
      else pure (low, high)

/-- The midpoint of two words does not leave them. -/
theorem toNat_midpoint {low high : UInt64} (h : low < high) :
    (low + (high - low) / 2).toNat = low.toNat + (high.toNat - low.toNat) / 2 := by
  have hhigh := high.toNat_lt
  rw [UInt64.lt_iff_toNat_lt] at h
  have hhalf : ((high - low) / 2).toNat = (high.toNat - low.toNat) / 2 := by
    rw [UInt64.toNat_div, UInt64.toNat_sub_of_le _ _ (UInt64.le_iff_toNat_le.mpr h.le)]
    rfl
  rw [toNat_add_of_fits, hhalf]
  rw [hhalf]
  omega

/-- **The search is `bisect`**: it ends by its own condition, at the limit that `bisect` finds. -/
theorem searchLimit_eq (feasible : UInt64 → Checked ε Bool) (test : ℕ → Bool) {fuel : ℕ}
    {low high : UInt64} (hle : low.toNat ≤ high.toNat)
    (hfuel : high.toNat - low.toNat < 2 ^ fuel)
    (htest : ∀ limit : UInt64, limit.toNat ≤ high.toNat →
      feasible limit = Except.ok (test limit.toNat)) :
    ∃ limit, searchLimit feasible fuel low high = Except.ok (limit, limit) ∧
      limit.toNat = bisect test fuel low.toNat high.toNat := by
  induction fuel generalizing low high with
  | zero =>
      rw [pow_zero] at hfuel
      have heq : low = high := UInt64.toNat_inj.mp (by omega)
      exact ⟨low, by rw [searchLimit, heq]; rfl, rfl⟩
  | succ fuel ih =>
      rw [pow_succ] at hfuel
      rw [searchLimit, bisect]
      by_cases hlt : low < high
      · have hmid := toNat_midpoint hlt
        rw [UInt64.lt_iff_toNat_lt] at hlt
        obtain ⟨hlow, hhigh⟩ := midpoint_mem hlt
        rw [if_pos (UInt64.lt_iff_toNat_lt.mpr hlt), if_pos hlt]
        dsimp only
        rw [htest _ (by rw [hmid]; exact hhigh.le), ok_bind, hmid]
        cases htest' : test (low.toNat + (high.toNat - low.toNat) / 2) with
        | true =>
            obtain ⟨limit, hrun, hlimit⟩ := ih
              (show low.toNat ≤ (low + (high - low) / 2).toNat by rw [hmid]; exact hlow) (by rw [hmid]; omega)
              fun limit hl => htest limit (le_trans hl (by rw [hmid]; exact hhigh.le))
            rw [hmid] at hlimit
            exact ⟨limit, hrun, hlimit⟩
        | false =>
            have hnext : (low + (high - low) / 2 + 1).toNat =
                low.toNat + (high.toNat - low.toNat) / 2 + 1 := by
              have hword := high.toNat_lt
              rw [toNat_add_of_fits, hmid]
              · rfl
              · rw [hmid]
                show _ + 1 < 2 ^ 64
                omega
            obtain ⟨limit, hrun, hlimit⟩ := ih
              (by rw [hnext]; exact hhigh) (by rw [hnext]; omega) htest
            rw [hnext] at hlimit
            exact ⟨limit, hrun, hlimit⟩
      · have heq : low = high := by
          rw [UInt64.lt_iff_toNat_lt] at hlt
          exact UInt64.toNat_inj.mp (le_antisymm hle (not_lt.mp hlt))
        rw [if_neg hlt, if_neg fun h => hlt (UInt64.lt_iff_toNat_lt.mpr h)]
        exact ⟨low, by rw [heq]; rfl, rfl⟩

end RunD.Planner
