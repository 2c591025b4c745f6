/-
List scheduling: each item goes, in turn, to a machine whose load is smallest
at that moment.

A run is the list of items with the machine each was given (`GreedyRun`).
Loads may be kept with saturation at `cap`, so "smallest" is meant up to that
cap.  Two facts hold of every run, whatever the order of the items: no machine
stays idle once there are as many items as machines (`GreedyRun.covers`), and
as long as no load passes the cap, two loads differ by at most the largest
item (`GreedyRun.balanced`).
-/
import RunD.CountingScatter

namespace RunD

variable {α : Type} (work : α → Nat) (cap machines : Nat)

/-- The items a machine was given so far. -/
def given (history : List (α × Nat)) (j : Nat) : List (α × Nat) := inBucket Prod.snd history j

/-- The work a machine was given so far. -/
def loadOf (history : List (α × Nat)) (j : Nat) : Nat :=
  ((given history j).map fun entry => work entry.1).sum

/-- Runs of list scheduling over `machines` machines. -/
inductive GreedyRun : List (α × Nat) → Prop where
  | start : GreedyRun []
  | give (history : List (α × Nat)) (x : α) (p : Nat) (run : GreedyRun history)
      (machine : p < machines)
      (least : ∀ j, j < machines →
        min cap (loadOf work history p) ≤ min cap (loadOf work history j)) :
      GreedyRun (history ++ [(x, p)])

variable {work cap machines} {history : List (α × Nat)}

theorem given_concat (history : List (α × Nat)) (x : α) (p j : Nat) :
    given (history ++ [(x, p)]) j =
      if p = j then given history j ++ [(x, p)] else given history j :=
  inBucket_concat Prod.snd history (x, p) j

theorem loadOf_concat (history : List (α × Nat)) (x : α) (p j : Nat) :
    loadOf work (history ++ [(x, p)]) j =
      if p = j then loadOf work history j + work x else loadOf work history j := by
  rw [loadOf, given_concat]
  by_cases h : p = j
  · rw [if_pos h, if_pos h, List.map_append, List.sum_append]
    simp [loadOf]
  · rw [if_neg h, if_neg h]
    rfl

theorem loadOf_le_concat (history : List (α × Nat)) (x : α) (p j : Nat) :
    loadOf work history j ≤ loadOf work (history ++ [(x, p)]) j := by
  rw [loadOf_concat]
  by_cases h : p = j
  · rw [if_pos h]
    exact Nat.le_add_right _ _
  · rw [if_neg h]

/-- Every item of a run has gone to one of the machines. -/
theorem GreedyRun.machine_lt (run : GreedyRun work cap machines history) :
    ∀ entry ∈ history, entry.2 < machines := by
  induction run with
  | start => exact fun entry h => absurd h (by simp)
  | give history x p run machine least ih =>
      intro entry hentry
      rcases List.mem_append.mp hentry with h | h
      · exact ih entry h
      · rw [List.mem_singleton.mp h]
        exact machine

/-- **Loads stay within the largest item of each other**, as long as none passes the cap. -/
theorem GreedyRun.balanced {largest : Nat} (run : GreedyRun work cap machines history)
    (hcap : ∀ j, j < machines → loadOf work history j ≤ cap)
    (hwork : ∀ entry ∈ history, work entry.1 ≤ largest) {i j : Nat} (hi : i < machines)
    (hj : j < machines) : loadOf work history i ≤ loadOf work history j + largest := by
  induction run generalizing i j with
  | start => exact Nat.zero_le _
  | give history x p run machine least ih =>
      have hbefore : ∀ k, k < machines → loadOf work history k ≤ cap := fun k hk =>
        Nat.le_trans (loadOf_le_concat history x p k) (hcap k hk)
      have hold := @ih hbefore (fun entry h => hwork entry (List.mem_append_left _ h)) i j hi hj
      have hgrow : loadOf work history j ≤ loadOf work (history ++ [(x, p)]) j :=
        loadOf_le_concat history x p j
      rw [loadOf_concat]
      by_cases hpi : p = i
      · -- the chosen machine was the least loaded one, and grows by one item
        have hleast := least j hj
        rw [Nat.min_eq_right (hbefore p machine), Nat.min_eq_right (hbefore j hj)] at hleast
        have hx : work x ≤ largest := hwork (x, p) (by simp)
        rw [if_pos hpi, ← hpi]
        omega
      · rw [if_neg hpi]
        omega

/-- A machine that was given something carries a load. -/
theorem loadOf_pos (hpos : ∀ entry ∈ history, 1 ≤ work entry.1) {j : Nat}
    (h : given history j ≠ []) : 1 ≤ loadOf work history j := by
  obtain ⟨entry, rest, hcons⟩ := List.exists_cons_of_ne_nil h
  have hmem : entry ∈ history := by
    have : entry ∈ given history j := by rw [hcons]; simp
    exact (List.mem_filter.mp this).1
  rw [loadOf, hcons, List.map_cons, List.sum_cons]
  have := hpos entry hmem
  omega

/-- While some machine is idle, no machine has two items. -/
theorem GreedyRun.idle (run : GreedyRun work cap machines history) (hcap : 1 ≤ cap)
    (hpos : ∀ entry ∈ history, 1 ≤ work entry.1) {j : Nat} (hj : j < machines)
    (hidle : given history j = []) (i : Nat) : (given history i).length ≤ 1 := by
  induction run generalizing i with
  | start => exact Nat.zero_le _
  | give history x p run machine least ih =>
      have hpos' : ∀ entry ∈ history, 1 ≤ work entry.1 := fun entry h =>
        hpos entry (List.mem_append_left _ h)
      rw [given_concat] at hidle
      have hpj : p ≠ j := by
        rintro rfl
        rw [if_pos rfl] at hidle
        exact absurd hidle (by simp)
      rw [if_neg hpj] at hidle
      rw [given_concat]
      by_cases hpi : p = i
      · -- an idle machine has load zero, so the chosen one had nothing either
        have hleast := least j hj
        rw [show loadOf work history j = 0 by rw [loadOf, hidle]; rfl] at hleast
        have hempty : given history p = [] := by
          by_contra hne
          have := loadOf_pos hpos' hne
          omega
        rw [if_pos hpi, ← hpi, hempty]
        exact Nat.le_refl _
      · rw [if_neg hpi]
        exact ih hpos' hidle i

theorem startOf_le_of_le_one {sizes : Nat → Nat} {n : Nat} (h : ∀ i, i < n → sizes i ≤ 1) :
    startOf sizes n ≤ n := by
  induction n with
  | zero => exact Nat.le_refl _
  | succ n ih =>
      have hrest := ih fun i hi => h i (by omega)
      have hlast := h n (by omega)
      rw [startOf_succ]
      omega

theorem startOf_lt_of_le_one {sizes : Nat → Nat} {n j : Nat} (h : ∀ i, i < n → sizes i ≤ 1)
    (hj : j < n) (hzero : sizes j = 0) : startOf sizes n < n := by
  induction n with
  | zero => omega
  | succ n ih =>
      rw [startOf_succ]
      by_cases hjn : j = n
      · have hrest : startOf sizes n ≤ n := startOf_le_of_le_one fun i hi => h i (by omega)
        have hlast : sizes n = 0 := hjn ▸ hzero
        omega
      · have hrest := ih (fun i hi => h i (by omega)) (by omega)
        have hlast := h n (by omega)
        omega

/-- **No machine stays idle** once there are as many items as machines. -/
theorem GreedyRun.covers (run : GreedyRun work cap machines history) (hcap : 1 ≤ cap)
    (hpos : ∀ entry ∈ history, 1 ≤ work entry.1) (hlen : machines ≤ history.length) {j : Nat}
    (hj : j < machines) : given history j ≠ [] := by
  intro hidle
  have htotal : startOf (fun j => (given history j).length) machines = history.length :=
    startOf_inBucket Prod.snd run.machine_lt
  have hshort : startOf (fun j => (given history j).length) machines < machines :=
    startOf_lt_of_le_one (fun i _ => run.idle hcap hpos hj hidle i) hj (by rw [hidle]; rfl)
  omega

end RunD
