/-
Balanced partitioning.

`buildBalancedPartitions` gives each partition packets until its work reaches a
target, the remaining work over the remaining partitions rounded up, and leaves
one packet for each partition still to come.  `balancedCut` is the cut it comes
to, over natural numbers except for the one sum that the code takes in 64-bit
words: the sum under the target's division wraps around when the remaining work
is close to the largest word, and the target is then zero.

The builder always succeeds.  Its partitions close where they should exactly
when that sum is a word, or where the wrapped target makes no difference
(`closesAtTarget_iff`).
-/
import RunD.PacketWork

namespace RunD.Planner

/-! ### The builder -/

def validPacketWorkUnits (packetWorkUnits : List UInt64) (request : PartitionRequest) : Prop :=
  request.packetCount ≠ 0 ∧ request.executionWidth ≠ 0 ∧
    packetWorkUnits.length = request.packetCount.toNat

instance (packetWorkUnits : List UInt64) (request : PartitionRequest) :
    Decidable (validPacketWorkUnits packetWorkUnits request) :=
  inferInstanceAs (Decidable (_ ∧ _ ∧ _))

/-- `while (end < max_end)` around the work of one partition, as many turns as are left before
`max_end`; it ends early once the work reaches the target. -/
def takePackets (packetWorkUnits : List UInt64) (targetWork : UInt64) :
    ℕ → UInt32 → UInt64 → Planning (UInt32 × UInt64)
  | 0, stop, work => pure (stop, work)
  | left + 1, stop, work => do
      let units ← fetch packetWorkUnits stop.toNat
      let work := scalarSatAdd work (normalizeWorkUnits units)
      let stop := stop + 1
      if work ≥ targetWork then pure (stop, work)
      else takePackets packetWorkUnits targetWork left stop work

/-- The variables of the loop over the partitions. -/
structure Balancing where
  «begin» : UInt32 := 0
  maxPackets : UInt32 := 0
  remainingWork : UInt64
  outPartitions : List Partition := []

/-- Where a partition ends, and the work that remains after it. -/
def partitionEnd (packetWorkUnits : List UInt64) (packetCount partitionCount index : UInt32)
    (state : Balancing) : Planning (UInt32 × UInt64) :=
  let remainingPartitions := partitionCount - index
  if index + 1 = partitionCount then pure (packetCount, state.remainingWork)
  else do
    let maxEnd := packetCount - (remainingPartitions - 1)
    let targetWork := (state.remainingWork + remainingPartitions.toUInt64 - 1) /
      remainingPartitions.toUInt64
    let taken ← takePackets packetWorkUnits targetWork (maxEnd.toNat - state.begin.toNat)
      state.begin 0
    pure (taken.1, scalarSatSub state.remainingWork taken.2)

/-- One turn of the loop over the partitions. -/
def closePartition (packetWorkUnits : List UInt64) (packetCount partitionCount : UInt32)
    (partitionIndex : ℕ) (state : Balancing) : Planning Balancing := do
  let index := UInt32.ofNat partitionIndex
  let closed ← partitionEnd packetWorkUnits packetCount partitionCount index state
  require (¬ (state.begin ≥ closed.1 ∨ closed.1 > packetCount))
    (failPartitionBuild "partition_coverage_mismatch", [])
  pure { «begin» := closed.1, maxPackets := max state.maxPackets (closed.1 - state.begin),
         remainingWork := closed.2,
         outPartitions := state.outPartitions ++
           [{ workerIndex := index, «begin» := state.begin, «end» := closed.1 }] }

/-- `BuildBalancedPartitions`. -/
def buildBalancedPartitions (packetWorkUnits : List UInt64) (request : PartitionRequest) :
    Planning Built := do
  require (validPacketWorkUnits packetWorkUnits request)
    (failPartitionBuild "invalid_packet_work_units", [])
  let partitionCount := resolvePartitionCount request.executionWidth request.packetCount
  require (partitionCount ≠ 0) (failPartitionBuild "invalid_partition_count", [])
  let built ← forRange partitionCount.toNat
    (closePartition packetWorkUnits request.packetCount partitionCount)
    { remainingWork := totalWork packetWorkUnits }
  require (built.begin = request.packetCount)
    (failPartitionBuild "partition_coverage_mismatch", [])
  let size := UInt32.ofNat built.outPartitions.length
  let slots := min (clampKernelWidth request.executionWidth) size
  pure ({ ok := true, reason := "pass", partitionCount := size, alignmentPackets := 1,
          packetsPerPartitionMax := built.maxPackets, workerSlotCount := slots,
          foldSlotCount := size, usefulWidth := slots, placement := .contiguousBalanced },
        built.outPartitions)

/-! ### Closing at a target -/

/-- The place at which a part that starts at `start` reaches the target, at most `left` places
after `stop`. -/
def closeAt (works : List UInt64) (start target : ℕ) : ℕ → ℕ → ℕ
  | 0, stop => stop
  | left + 1, stop =>
      if target ≤ workBefore works (stop + 1) - workBefore works start then stop + 1
      else closeAt works start target left (stop + 1)

/-- The first place at which the work reaches the target or no more places are left. -/
theorem closeAt_isLeast (works : List UInt64) {start stop : ℕ} (target left : ℕ)
    (hstart : start ≤ stop)
    (hleft : start < stop + left)
    (hopen : ∀ e, start < e → e ≤ stop → workBefore works e - workBefore works start < target) :
    IsLeast {e | start < e ∧
      (target ≤ workBefore works e - workBefore works start ∨ e = stop + left)}
      (closeAt works start target left stop) := by
  induction left generalizing stop with
  | zero =>
      refine ⟨⟨hleft, Or.inr rfl⟩, ?_⟩
      rintro e ⟨he, hreach | rfl⟩
      · -- nothing up to `stop` reaches the target
        apply not_lt.mp
        intro hlt
        exact absurd (hopen e he hlt.le) (not_lt.mpr hreach)
      · exact le_refl _
  | succ left ih =>
      rw [closeAt]
      by_cases hreach : target ≤ workBefore works (stop + 1) - workBefore works start
      · rw [if_pos hreach]
        refine ⟨⟨Nat.lt_succ_of_le hstart, Or.inl hreach⟩, ?_⟩
        rintro e ⟨he, hat | rfl⟩
        · apply not_lt.mp
          intro hlt
          exact absurd (hopen e he (Nat.le_of_lt_succ hlt)) (not_lt.mpr hat)
        · exact Nat.add_le_add_left (Nat.succ_le_succ (Nat.zero_le left)) stop
      · rw [if_neg hreach]
        have hnext := ih (Nat.le_succ_of_le hstart) (by omega) fun e he hle => by
          rcases Nat.lt_or_eq_of_le hle with hlt | rfl
          · exact hopen e he (Nat.le_of_lt_succ hlt)
          · exact not_le.mp hreach
        rwa [Nat.add_right_comm stop 1 left] at hnext

/-! ### The cut of the builder -/

/-- The work that is to be dealt out, the most that a word can show. -/
def allWork (works : List UInt64) (n : ℕ) : ℕ := min maxLoad (workBefore works n)

/-- The remaining work over the remaining partitions, rounded up. -/
def balancedTarget (remaining parts : ℕ) : ℕ := (remaining + parts - 1) / parts

/-- The target as the code computes it. -/
def wordTarget (remaining parts : ℕ) : ℕ := (remaining + parts - 1) % 2 ^ 64 / parts

/-- Where the builder's partitions start. -/
def balancedCut (works : List UInt64) (k n : ℕ) : ℕ → ℕ
  | 0 => 0
  | i + 1 =>
      let start := balancedCut works k n i
      if i + 1 = k then n
      else
        closeAt works start (wordTarget (allWork works n - workBefore works start) (k - i))
          (n - (k - i - 1) - start) start

@[simp] theorem balancedCut_zero (works : List UInt64) (k n : ℕ) :
    balancedCut works k n 0 = 0 := rfl

theorem balancedCut_last {works : List UInt64} {k n i : ℕ} (h : i + 1 = k) :
    balancedCut works k n (i + 1) = n := if_pos h

theorem balancedCut_close {works : List UInt64} {k n i : ℕ} (h : i + 1 ≠ k) :
    balancedCut works k n (i + 1) =
      closeAt works (balancedCut works k n i)
        (wordTarget (allWork works n - workBefore works (balancedCut works k n i)) (k - i))
        (n - (k - i - 1) - balancedCut works k n i) (balancedCut works k n i) := if_neg h

/-- A part before the last closes at the first place that reaches the code's target or leaves one
packet for each part to come. -/
theorem balancedCut_isLeast {works : List UInt64} {k n i : ℕ} (hi : i + 1 < k)
    (hroom : balancedCut works k n i + (k - i) ≤ n) :
    IsLeast {e | balancedCut works k n i < e ∧
      (wordTarget (allWork works n - workBefore works (balancedCut works k n i)) (k - i) ≤
          workBefore works e - workBefore works (balancedCut works k n i) ∨
        e = n - (k - i - 1))} (balancedCut works k n (i + 1)) := by
  have hleft : balancedCut works k n i + (n - (k - i - 1) - balancedCut works k n i) =
      n - (k - i - 1) := by omega
  rw [balancedCut_close (Nat.ne_of_lt hi)]
  have hclose := closeAt_isLeast works
    (wordTarget (allWork works n - workBefore works (balancedCut works k n i)) (k - i))
    (n - (k - i - 1) - balancedCut works k n i) (le_refl (balancedCut works k n i)) (by omega)
    fun e he hle => absurd he (not_lt.mpr hle)
  rwa [hleft] at hclose

/-- The parts still to come have room. -/
theorem balancedCut_room (works : List UInt64) {k n i : ℕ} (hkn : k ≤ n) (hi : i ≤ k) :
    balancedCut works k n i + (k - i) ≤ n := by
  induction i with
  | zero => rwa [balancedCut_zero, Nat.zero_add]
  | succ i ih =>
      have hroom := ih (Nat.le_of_succ_le hi)
      rcases Nat.lt_or_eq_of_le hi with hlt | hlast
      · have hmax := (balancedCut_isLeast hlt hroom).2 (show n - (k - i - 1) ∈ _ from
          ⟨by omega, Or.inr rfl⟩)
        omega
      · rw [balancedCut_last hlast, hlast, Nat.sub_self]
        exact le_refl n

theorem cuts_balancedCut (works : List UInt64) {k n : ℕ} (hk : 0 < k) (hkn : k ≤ n) :
    Cuts (balancedCut works k n) k n where
  start := rfl
  stop := by
    obtain ⟨i, rfl⟩ := Nat.exists_eq_succ_of_ne_zero (Nat.ne_of_gt hk)
    exact balancedCut_last rfl
  step i hi := by
    have hroom := balancedCut_room works hkn hi.le
    rcases Nat.lt_or_eq_of_le (Nat.succ_le_of_lt hi) with hlt | hlast
    · exact (balancedCut_isLeast hlt hroom).1.1
    · rw [balancedCut_last hlast]
      omega

/-! ### Closing at the rounded target -/

/-- Every part but the last closes at the first packet at which its work reaches the remaining work
over the remaining parts, rounded up, or at which one packet for each part to come is left.  The
remaining work counts down from the saturated total, so that it is the exact work of the packets
from `cut i` on whenever the total is a word. -/
def ClosesAtTarget (works : List UInt64) (cut : ℕ → ℕ) (k n : ℕ) : Prop :=
  ∀ i, i + 1 < k →
    IsLeast {e | cut i < e ∧
      (balancedTarget (allWork works n - workBefore works (cut i)) (k - i) ≤
          workBefore works e - workBefore works (cut i) ∨
        e = n - (k - i - 1))} (cut (i + 1))

theorem allWork_le (works : List UInt64) (n : ℕ) : allWork works n < 2 ^ 64 := by
  have hle : allWork works n ≤ maxLoad := min_le_left _ _
  rw [maxLoad] at hle
  omega

/-- Without a wrap the code's target is the rounded one. -/
theorem wordTarget_eq {remaining parts : ℕ} (h : remaining + parts - 1 < 2 ^ 64) :
    wordTarget remaining parts = balancedTarget remaining parts := by
  rw [wordTarget, Nat.mod_eq_of_lt h, balancedTarget]

/-- With a wrap the code's target is zero. -/
theorem wordTarget_wrapped {remaining parts : ℕ} (hword : remaining < 2 ^ 64)
    (hparts : parts < 2 ^ 32) (h : 2 ^ 64 ≤ remaining + parts - 1) :
    wordTarget remaining parts = 0 := by
  have hmod : (remaining + parts - 1) % 2 ^ 64 = remaining + parts - 1 - 2 ^ 64 := by omega
  rw [wordTarget, hmod]
  exact Nat.div_eq_of_lt (by omega)

/-- A wrapped target closes the first part after its first packet. -/
theorem balancedCut_one {works : List UInt64} {k n : ℕ} (hk : 1 < k) (hkn : k ≤ n)
    (hparts : k < 2 ^ 32) (h : 2 ^ 64 ≤ allWork works n + k - 1) :
    balancedCut works k n 1 = 1 := by
  have hleast := balancedCut_isLeast (i := 0) hk
    (balancedCut_room works hkn (Nat.zero_le k))
  rw [balancedCut_zero, workBefore_zero, Nat.sub_zero, Nat.sub_zero,
    wordTarget_wrapped (allWork_le works n) hparts h] at hleast
  exact le_antisymm (hleast.2 ⟨Nat.zero_lt_one, Or.inl (Nat.zero_le _)⟩) hleast.1.1

theorem workBefore_one (works : List UInt64) : workBefore works 1 = workOf works 0 := by
  rw [workBefore_succ, workBefore_zero, Nat.zero_add]

/-- Where the first sum wraps and the first packet reaches the first target, the packet has at
least as much work as there are parts to come. -/
theorem parts_le_first {remaining k work : ℕ} (hk : k < 2 ^ 32)
    (hwrap : 2 ^ 64 ≤ remaining + k - 1) (hreach : remaining ≤ work * k) : k ≤ work + 1 := by
  apply not_lt.mp
  intro hlt
  have hsmall : work * k ≤ 2 ^ 32 * 2 ^ 32 - 2 ^ 32 := by
    calc work * k ≤ (2 ^ 32 - 1) * 2 ^ 32 := Nat.mul_le_mul (by omega) hk.le
      _ = 2 ^ 32 * 2 ^ 32 - 2 ^ 32 := by rw [Nat.sub_mul, Nat.one_mul]
  omega

theorem balancedTarget_le_iff {remaining parts work : ℕ} (h : 0 < parts) :
    balancedTarget remaining parts ≤ work ↔ remaining ≤ work * parts := by
  rw [balancedTarget, ← Nat.lt_succ_iff, Nat.div_lt_iff_lt_mul h, Nat.succ_mul]
  omega

/-- **When balanced partitions close where they should**: when the sum under the division is a word,
and otherwise only when every part is one packet or when the first packet alone reaches the first
target. -/
theorem closesAtTarget_iff {works : List UInt64} {k n : ℕ} (hk : 0 < k) (hkn : k ≤ n)
    (hparts : k < 2 ^ 32) :
    ClosesAtTarget works (balancedCut works k n) k n ↔
      allWork works n + k - 1 < 2 ^ 64 ∨ n = k ∨ allWork works n ≤ workOf works 0 * k := by
  have hcut := cuts_balancedCut works hk hkn
  have hword := allWork_le works n
  constructor
  · intro hclose
    by_contra hnone
    push Not at hnone
    obtain ⟨hwrap, hne, hfirst⟩ := hnone
    have hk1 : 1 < k := by omega
    obtain ⟨-, hreach | hlast⟩ := (hclose 0 hk1).1
    · -- the first part is the first packet alone, which does not reach the target
      rw [balancedCut_zero, Nat.zero_add, balancedCut_one hk1 hkn hparts hwrap, workBefore_one,
        workBefore_zero, Nat.sub_zero, Nat.sub_zero, Nat.sub_zero,
        balancedTarget_le_iff hk] at hreach
      exact absurd hfirst (not_lt.mpr hreach)
    · rw [Nat.zero_add, balancedCut_one hk1 hkn hparts hwrap] at hlast
      omega
  · intro hcond i hi
    have hroom := balancedCut_room works hkn (Nat.le_of_succ_le hi.le)
    have hleast := balancedCut_isLeast hi hroom
    by_cases hfit : allWork works n - workBefore works (balancedCut works k n i) + (k - i) - 1 <
        2 ^ 64
    · rwa [wordTarget_eq hfit] at hleast
    -- the sum wraps: the other two cases remain
    have hwrap : ¬ allWork works n + k - 1 < 2 ^ 64 := by omega
    rcases hcond with hfits | rfl | hfirst
    · exact absurd hfits hwrap
    · -- every part is one packet
      have hlow := hcut.self_le (i := i) (Nat.le_of_succ_le hi.le)
      have hnext := hcut.room (i := i + 1) hi.le
      refine ⟨⟨hleast.1.1, Or.inr ?_⟩, fun e he => ?_⟩
      · have := hleast.1.1
        omega
      · have := he.1
        omega
    · have hpart := parts_le_first hparts (not_lt.mp hwrap) hfirst
      cases i with
      | zero =>
          -- the wrapped target and the rounded one both close after the first packet
          rw [Nat.zero_add, balancedCut_one hi hkn hparts (not_lt.mp hwrap), balancedCut_zero,
            workBefore_zero, Nat.sub_zero, Nat.sub_zero]
          refine ⟨⟨Nat.zero_lt_one, Or.inl ?_⟩, fun e he => he.1⟩
          rw [workBefore_one, Nat.sub_zero, balancedTarget_le_iff hk]
          exact hfirst
      | succ i =>
          -- the first packet has taken enough work for every later sum to be a word
          have hfar : workBefore works 1 ≤ workBefore works (balancedCut works k n (i + 1)) := by
            have hlow := hcut.self_le (i := i + 1) (Nat.le_of_succ_le hi.le)
            exact workBefore_mono works (le_trans (Nat.succ_le_succ (Nat.zero_le i)) hlow)
          rw [workBefore_one] at hfar
          omega

/-! ### The builder comes to its cut -/

section
variable {E : Built → Prop}

theorem ends_takePackets {works : List UInt64} {target : UInt64} {start left s : ℕ}
    {stop : UInt32} {work : UInt64} (hstop : stop.toNat = s) (hstart : start ≤ s)
    (hlength : s + left ≤ works.length) (hword : works.length < 2 ^ 32)
    (hwork : work.toNat = min maxLoad (workBefore works s - workBefore works start)) :
    Ends (takePackets works target left stop work)
      (fun taken => taken.1.toNat = closeAt works start target.toNat left s ∧
        taken.2.toNat =
          min maxLoad (workBefore works taken.1.toNat - workBefore works start)) E := by
  induction left generalizing s stop work with
  | zero => exact ends_pure ⟨hstop, by rw [hstop]; exact hwork⟩
  | succ left ih =>
      obtain ⟨units, hget⟩ : ∃ units, works[stop.toNat]? = some units :=
        ⟨_, List.getElem?_eq_getElem (by omega)⟩
      have hone : stop.toNat + (1 : UInt32).toNat = s + 1 := by
        rw [hstop]
        rfl
      have hnext : (stop + 1).toNat = s + 1 := by
        rw [toNat_add_fits, hone]
        rw [hone]
        omega
      have hsum : (scalarSatAdd work (normalizeWorkUnits units)).toNat =
          min maxLoad (workBefore works (s + 1) - workBefore works start) := by
        have hmono := workBefore_mono works hstart
        rw [toNat_scalarSatAdd, hwork, toNat_normalize hget, hstop, workBefore_succ]
        omega
      have htarget : target.toNat ≤ maxLoad := by
        have := target.toNat_lt
        rw [maxLoad]
        omega
      rw [takePackets, fetch_of_lt hget, ok_bind]
      dsimp only
      by_cases hreach : target.toNat ≤ workBefore works (s + 1) - workBefore works start
      · have hge : scalarSatAdd work (normalizeWorkUnits units) ≥ target := by
          rw [ge_iff_le, UInt64.le_iff_toNat_le, hsum]
          exact le_min htarget hreach
        rw [if_pos hge, closeAt, if_pos hreach]
        exact ends_pure ⟨hnext, by rw [hnext]; exact hsum⟩
      · have hlt : ¬ scalarSatAdd work (normalizeWorkUnits units) ≥ target := by
          rw [ge_iff_le, UInt64.le_iff_toNat_le, hsum]
          exact fun hle => hreach (le_trans hle (min_le_right _ _))
        rw [if_neg hlt, closeAt, if_neg hreach]
        exact ih hnext (Nat.le_succ_of_le hstart) (by omega) hsum

/-- The target of the code is `wordTarget`. -/
theorem toNat_targetWork {remaining : UInt64} {parts : UInt32} (hparts : 0 < parts.toNat) :
    ((remaining + parts.toUInt64 - 1) / parts.toUInt64).toNat =
      wordTarget remaining.toNat parts.toNat := by
  have hremaining := remaining.toNat_lt
  have hlt := parts.toNat_lt
  have hsum : (remaining + parts.toUInt64 - 1).toNat =
      (remaining.toNat + parts.toNat - 1) % 2 ^ 64 := by
    rw [UInt64.toNat_sub, UInt64.toNat_add, UInt32.toNat_toUInt64]
    show (2 ^ 64 - 1 + (remaining.toNat + parts.toNat) % 2 ^ 64) % 2 ^ 64 = _
    omega
  rw [UInt64.toNat_div, hsum, UInt32.toNat_toUInt64, wordTarget]

/-- Where the loop stands after `i` partitions. -/
structure BalancedUpTo (works : List UInt64) (k n i : ℕ) (state : Balancing) : Prop where
  start : state.begin.toNat = balancedCut works k n i
  widest : state.maxPackets.toNat = widestPart (balancedCut works k n) i
  remaining : i < k → state.remainingWork.toNat =
    allWork works n - workBefore works (balancedCut works k n i)
  length : state.outPartitions.length = i
  parts : PartsUpTo (balancedCut works k n) i state.outPartitions

/-- A partition ends where its part of the cut does. -/
theorem ends_partitionEnd {works : List UInt64} {packetCount partitionCount : UInt32} {i : ℕ}
    {state : Balancing} (hlength : works.length = packetCount.toNat)
    (hi : i < partitionCount.toNat) (hkn : partitionCount.toNat ≤ packetCount.toNat)
    (h : BalancedUpTo works partitionCount.toNat packetCount.toNat i state) :
    Ends (partitionEnd works packetCount partitionCount (UInt32.ofNat i) state) (fun closed =>
      closed.1.toNat = balancedCut works partitionCount.toNat packetCount.toNat (i + 1) ∧
        (i + 1 < partitionCount.toNat → closed.2.toNat = allWork works packetCount.toNat -
          workBefore works (balancedCut works partitionCount.toNat packetCount.toNat (i + 1))))
      E := by
  have hcount := partitionCount.toNat_lt
  have hcut := cuts_balancedCut works (Nat.lt_of_le_of_lt (Nat.zero_le i) hi) hkn
  have hroom := hcut.room hi.le
  have hindex : (UInt32.ofNat i).toNat = i := toNat_ofNat_lt (hi.trans hcount)
  have hlast : UInt32.ofNat i + 1 = partitionCount ↔ i + 1 = partitionCount.toNat := by
    rw [← UInt32.toNat_inj, UInt32.toNat_add, hindex]
    show (i + 1) % 2 ^ 32 = _ ↔ _
    rw [Nat.mod_eq_of_lt (by omega)]
  have hremaining : (partitionCount - UInt32.ofNat i).toNat = partitionCount.toNat - i := by
    rw [UInt32.toNat_sub_of_le, hindex]
    rw [UInt32.le_iff_toNat_le, hindex]
    exact hi.le
  rw [partitionEnd]
  dsimp only
  by_cases hend : i + 1 = partitionCount.toNat
  · rw [if_pos (hlast.mpr hend)]
    exact ends_pure ⟨(balancedCut_last hend).symm, fun hlt => absurd hend (Nat.ne_of_lt hlt)⟩
  rw [if_neg fun heq => hend (hlast.mp heq)]
  have hless : (partitionCount - UInt32.ofNat i - 1).toNat = partitionCount.toNat - i - 1 := by
    rw [UInt32.toNat_sub_of_le, hremaining]
    · rfl
    · rw [UInt32.le_iff_toNat_le, hremaining]
      exact Nat.le_sub_of_add_le (by rw [Nat.add_comm]; exact hi)
  have hmaxEnd : (packetCount - (partitionCount - UInt32.ofNat i - 1)).toNat =
      packetCount.toNat - (partitionCount.toNat - i - 1) := by
    rw [UInt32.toNat_sub_of_le, hless]
    rw [UInt32.le_iff_toNat_le, hless]
    omega
  refine Ends.bind (ends_takePackets rfl (le_refl _) ?_ ?_ ?_) ?_
  · rw [hmaxEnd, h.start, hlength]
    omega
  · rw [hlength]
    exact packetCount.toNat_lt
  · rw [Nat.sub_self, Nat.min_zero]
    rfl
  · rintro ⟨stop, work⟩ ⟨hstop, hwork⟩
    dsimp only at hstop hwork ⊢
    have hclosed : stop.toNat =
        balancedCut works partitionCount.toNat packetCount.toNat (i + 1) := by
      rw [hstop, hmaxEnd, toNat_targetWork (by rw [hremaining]; omega), hremaining,
        h.remaining hi, h.start, balancedCut_close hend]
    refine ends_pure ⟨hclosed, fun _ => ?_⟩
    have hmono := workBefore_mono works (hcut.step i hi).le
    have hall : allWork works packetCount.toNat ≤ maxLoad := min_le_left _ _
    rw [toNat_scalarSatSub, hwork, h.remaining hi, hclosed, h.start]
    omega

/-- One partition. -/
theorem ends_closePartition {works : List UInt64} {packetCount partitionCount : UInt32} {i : ℕ}
    {state : Balancing} (hlength : works.length = packetCount.toNat)
    (hi : i < partitionCount.toNat) (hkn : partitionCount.toNat ≤ packetCount.toNat)
    (h : BalancedUpTo works partitionCount.toNat packetCount.toNat i state) :
    Ends (closePartition works packetCount partitionCount i state)
      (BalancedUpTo works partitionCount.toNat packetCount.toNat (i + 1)) E := by
  have hcut := cuts_balancedCut works (Nat.lt_of_le_of_lt (Nat.zero_le i) hi) hkn
  have hstep := hcut.step i hi
  have hle := hcut.le (i := i + 1) hi
  have hbegin := h.start
  rw [closePartition]
  refine Ends.bind (ends_partitionEnd hlength hi hkn h) ?_
  rintro ⟨stop, remaining⟩ ⟨hstop, hrest⟩
  dsimp only at hstop hrest ⊢
  refine Ends.require_bind (fun hno => absurd ?_ hno) fun _ => ?_
  · rintro (hge | hgt)
    · rw [ge_iff_le, UInt32.le_iff_toNat_le, hstop, hbegin] at hge
      exact absurd hstep (not_lt.mpr hge)
    · rw [gt_iff_lt, UInt32.lt_iff_toNat_lt, hstop] at hgt
      exact absurd hle (not_le.mpr hgt)
  have hwidth : (stop - state.begin).toNat =
      balancedCut works partitionCount.toNat packetCount.toNat (i + 1) -
        balancedCut works partitionCount.toNat packetCount.toNat i := by
    rw [UInt32.toNat_sub_of_le, hstop, hbegin]
    rw [UInt32.le_iff_toNat_le, hstop, hbegin]
    exact hstep.le
  apply ends_pure
  exact {
    start := hstop
    widest := by
      show (max state.maxPackets (stop - state.begin)).toNat = _
      rw [toNat_max, hwidth, h.widest, widestPart_succ]
    remaining := hrest
    length := by
      show (state.outPartitions ++ _).length = _
      rw [List.length_append, h.length]
      rfl
    parts := h.parts.push h.length (toNat_ofNat_lt (hi.trans partitionCount.toNat_lt)) hbegin
      hstop }

/-- **Balanced partitioning always succeeds**, with the partitions of its cut. -/
theorem ends_buildBalancedPartitions {works : List UInt64} {request : PartitionRequest}
    (hvalid : validPacketWorkUnits works request) :
    Ends (buildBalancedPartitions works request) (fun built =>
      let k := min request.executionWidth.toNat request.packetCount.toNat
      built.1.ok = true ∧
        Partitioned built.2 (balancedCut works k request.packetCount.toNat) k
          request.packetCount.toNat ∧
        built.1.packetsPerPartitionMax.toNat =
          widestPart (balancedCut works k request.packetCount.toNat) k) E := by
  have hpackets := toNat_pos_of_ne_zero hvalid.1
  have hwidth := toNat_pos_of_ne_zero hvalid.2.1
  have hcount : (resolvePartitionCount request.executionWidth request.packetCount).toNat =
      min request.executionWidth.toNat request.packetCount.toNat := by
    rw [resolvePartitionCount, clampKernelWidth, toNat_max, toNat_min, toNat_max]
    show max 1 (min _ (max 1 _)) = _
    rw [max_eq_right (show 1 ≤ request.executionWidth.toNat from hwidth),
      max_eq_right (le_min hpackets hwidth), Nat.min_comm]
  have hpos : 0 < min request.executionWidth.toNat request.packetCount.toNat :=
    lt_min hwidth hpackets
  rw [buildBalancedPartitions]
  refine Ends.require_bind (fun hno => absurd hvalid hno) fun _ => ?_
  dsimp only
  generalize resolvePartitionCount request.executionWidth request.packetCount = partitionCount
    at hcount ⊢
  rw [← hcount] at hpos ⊢
  have hkn : partitionCount.toNat ≤ request.packetCount.toNat := by
    rw [hcount]
    exact min_le_right _ _
  have hcut := cuts_balancedCut works hpos hkn
  refine Ends.require_bind (fun hno => absurd ?_ hno) fun _ => ?_
  · rintro rfl
    exact absurd hpos (lt_irrefl 0)
  refine Ends.bind (ends_forRange
    (BalancedUpTo works partitionCount.toNat request.packetCount.toNat) ?_ fun i state hi h =>
      ends_closePartition hvalid.2.2 hi hkn h) ?_
  · exact {
      start := rfl
      widest := rfl
      remaining := fun _ => by
        rw [toNat_totalWork, hvalid.2.2, balancedCut_zero, workBefore_zero, Nat.sub_zero, allWork]
      length := rfl
      parts := partsUpTo_zero _ _ }
  · intro state h
    refine Ends.require_bind (fun hno => absurd (UInt32.toNat_inj.mp ?_) hno) fun _ => ?_
    · rw [h.start, hcut.stop]
    · exact ends_pure ⟨rfl, ⟨hcut, h.length, h.parts⟩, h.widest⟩

end

/-! ### Where the partitions close -/

/-- Balanced partitioning as it is meant: it succeeds with one nonempty range for each of the
partitions, in order, over all the packets, and every partition but the last closes at its
target. -/
def BuildsBalanced (works : List UInt64) (request : PartitionRequest) : Prop :=
  let n := request.packetCount.toNat
  let k := min request.executionWidth.toNat n
  ∃ (build : PartitionBuild) (partitions : List Partition) (cut : ℕ → ℕ),
    buildBalancedPartitions works request = Except.ok (build, partitions) ∧ build.ok = true ∧
      Partitioned partitions cut k n ∧ ClosesAtTarget works cut k n

theorem closesAtTarget_congr {works : List UInt64} {cut cut' : ℕ → ℕ} {k n : ℕ}
    (heq : ∀ i, i ≤ k → cut i = cut' i) (h : ClosesAtTarget works cut k n) :
    ClosesAtTarget works cut' k n := by
  intro i hi
  rw [← heq i (Nat.le_of_succ_le hi.le), ← heq (i + 1) hi.le]
  exact h i hi

/-- Whether the builder does what it is meant to is a question about its cut. -/
theorem buildsBalanced_iff_closes {works : List UInt64} {request : PartitionRequest}
    (hvalid : validPacketWorkUnits works request) :
    BuildsBalanced works request ↔
      ClosesAtTarget works (balancedCut works
          (min request.executionWidth.toNat request.packetCount.toNat) request.packetCount.toNat)
        (min request.executionWidth.toNat request.packetCount.toNat)
        request.packetCount.toNat := by
  obtain ⟨⟨build, partitions⟩, hrun, hok, hpart, -⟩ :=
    Ends.returns (ends_buildBalancedPartitions (E := fun _ => False) hvalid)
  constructor
  · rintro ⟨build', partitions', cut, hrun', -, hpart', hclose⟩
    rw [hrun] at hrun'
    obtain ⟨-, rfl⟩ := Prod.mk.inj (Except.ok.inj hrun')
    exact closesAtTarget_congr (fun i hi => hpart'.unique hpart hi) hclose
  · exact fun hclose => ⟨build, partitions, _, hrun, hok, hpart, hclose⟩

/-- A light first packet before a packet with all the work that a word can show. -/
def wrappingWorks : List UInt64 := [1, 0xFFFFFFFFFFFFFFFF, 1]

end RunD.Planner
