/-
The planner's partitions: requests, their projection to units and slots, and
uniform partitioning.

A partition request asks for `packet_count` packets to be dealt to
`execution_width` workers.  `projectPartitions` settles how many partitions there
are and how many packets make up a unit; the uniform builder deals out the units
and the planner's own validation walks over the result.  What any of the
planner's builders is for is `Partitioned`: the partitions are the parts of a cut
of the packets.
-/
import RunD.Cuts
import RunD.WeightedPartition

namespace RunD.Planner

/-! ### Requests and their projection -/

/-- `PartitionIntent`. -/
inductive PartitionIntent where
  | staticWidth
  deriving DecidableEq, Repr

structure PartitionRequest where
  packetCount : UInt32 := 0
  executionWidth : UInt32 := 1
  intent : PartitionIntent := .staticWidth
  preferredAlignmentPackets : UInt32 := 1
  packetWorkUnits : List UInt64 := []
  workerCapacityMilli : List UInt32 := []
  trustWorkerCapacity : Bool := false
  deriving DecidableEq, Repr

def canUseAlignedPartitions (request : PartitionRequest) : Bool :=
  let width := clampKernelWidth request.executionWidth
  let groupCount :=
    resolveAlignmentGroupCount request.packetCount request.preferredAlignmentPackets
  request.preferredAlignmentPackets > 1 &&
    request.packetCount % request.preferredAlignmentPackets == 0 &&
    groupCount > 1 && groupCount ≥ width

def projectionFailure (request : PartitionRequest) (reason : String)
    (alignmentPackets : UInt32) : PartitionProjection :=
  { ok := false, reason := reason, packetCount := request.packetCount,
    executionWidth := request.executionWidth, alignmentPackets := alignmentPackets }

/-- `ProjectPartitions`. -/
def projectPartitions (request : PartitionRequest) : PartitionProjection :=
  if request.packetCount = 0 then projectionFailure request "invalid_packet_count" 1
  else if request.executionWidth = 0 then projectionFailure request "invalid_execution_width" 1
  else
    let alignmentPackets :=
      if canUseAlignedPartitions request then request.preferredAlignmentPackets else 1
    let partitionUnits := resolvePartitionUnits request.packetCount alignmentPackets
    if partitionUnits = 0 then
      projectionFailure request "invalid_partition_units" alignmentPackets
    else
      let partitionCount := resolvePartitionCount request.executionWidth partitionUnits
      let executionWidth := clampKernelWidth request.executionWidth
      let usefulWidth := min executionWidth partitionCount
      { ok := true, reason := "pass", packetCount := request.packetCount,
        executionWidth := executionWidth, partitionCount := partitionCount,
        alignmentPackets := alignmentPackets, workerSlotCount := usefulWidth,
        foldSlotCount := partitionCount, usefulWidth := usefulWidth }

def failPartitionBuild (reason : String) : PartitionBuild := { ok := false, reason := reason }

def failProjectedPartitionBuild (projection : PartitionProjection) (reason : String) :
    PartitionBuild :=
  { ok := false, reason := reason, partitionCount := projection.partitionCount,
    alignmentPackets := projection.alignmentPackets,
    workerSlotCount := projection.workerSlotCount, foldSlotCount := projection.foldSlotCount,
    usefulWidth := projection.usefulWidth, placement := projection.placement }

/-- A builder's result and the partitions it leaves in its output vector. -/
abbrev Built := PartitionBuild × List Partition

abbrev Planning := Checked Built

/-! ### Uniform partitioning -/

section
variable {ε : Type}

/-- `BuildUnitPartitionsInto`, with the array that it writes into. -/
def buildUnitPartitionsInto (outPartitions : List Partition)
    (partitionUnits partitionCount alignmentPackets : UInt32) : Checked ε (List Partition) :=
  if partitionUnits = 0 ∨ partitionCount = 0 then pure outPartitions
  else do
    let base := partitionUnits / partitionCount
    let remainder := partitionUnits % partitionCount
    let built ← forRange partitionCount.toNat (fun slot (state : UInt32 × List Partition) => do
      let unitWidth := base + if UInt32.ofNat slot < remainder then 1 else 0
      let unitEnd := state.1 + unitWidth
      let partitions ← assign state.2 slot
        { workerIndex := UInt32.ofNat slot, «begin» := state.1 * alignmentPackets,
          «end» := unitEnd * alignmentPackets }
      pure (unitEnd, partitions)) (0, outPartitions)
    pure built.2

/-- `BuildUnitPartitions`: the output vector is cleared, then resized to the partitions. -/
def buildUnitPartitions (partitionUnits partitionCount alignmentPackets : UInt32) :
    Checked ε (List Partition) :=
  if partitionUnits = 0 ∨ partitionCount = 0 then pure []
  else
    buildUnitPartitionsInto (List.replicate partitionCount.toNat {}) partitionUnits
      partitionCount alignmentPackets

/-- `ValidatePartitionCoverage`: the largest partition, or `none` for false. -/
def validatePartitionCoverage (partitions : List Partition) (partitionCount packetCount : UInt32) :
    Checked ε (Option UInt32) :=
  call do
    require (partitionCount ≠ 0) none
    let first ← fetch partitions 0
    require (first.begin = 0) none
    let last ← fetch partitions (partitionCount - 1).toNat
    require (last.end = packetCount) none
    let walked ← forRange partitionCount.toNat (fun index (state : UInt32 × UInt32) => do
      let partition ← fetch partitions index
      require (partition.begin = state.2) none
      require (partition.begin < partition.end) none
      require (partition.end ≤ packetCount) none
      pure (max state.1 (partition.end - partition.begin), partition.end)) (0, 0)
    pure (some walked.1)

end

/-- `BuildPartitions`. -/
def buildPartitions (request : PartitionRequest) : Planning Built := do
  let projection := projectPartitions request
  require (projection.ok = true)
    (failProjectedPartitionBuild projection projection.reason, [])
  let partitionUnits := resolvePartitionUnits request.packetCount projection.alignmentPackets
  let partitions ← buildUnitPartitions partitionUnits projection.partitionCount
    projection.alignmentPackets
  let coverage ← validatePartitionCoverage partitions (UInt32.ofNat partitions.length)
    request.packetCount
  match coverage with
  | none => pure (failPartitionBuild "partition_coverage_mismatch", [])
  | some maxPackets =>
      pure ({ ok := true, reason := "pass", partitionCount := UInt32.ofNat partitions.length,
              alignmentPackets := projection.alignmentPackets,
              packetsPerPartitionMax := maxPackets,
              workerSlotCount := projection.workerSlotCount,
              foldSlotCount := projection.foldSlotCount, usefulWidth := projection.usefulWidth,
              placement := projection.placement }, partitions)

/-! ### What a builder is for -/

/-- The first `m` partitions are the first `m` parts of `cut`, one for each slot. -/
def PartsUpTo (cut : ℕ → ℕ) (m : ℕ) (partitions : List Partition) : Prop :=
  ∀ slot, slot < m → ∃ partition, partitions[slot]? = some partition ∧
    partition.workerIndex.toNat = slot ∧ partition.begin.toNat = cut slot ∧
    partition.end.toNat = cut (slot + 1)

/-- `partitions` are `k` nonempty ranges in the order of the slots that follow each other and
cover the `n` packets. -/
structure Partitioned (partitions : List Partition) (cut : ℕ → ℕ) (k n : ℕ) : Prop where
  cuts : Cuts cut k n
  length : partitions.length = k
  parts : PartsUpTo cut k partitions

theorem partsUpTo_zero (cut : ℕ → ℕ) (partitions : List Partition) :
    PartsUpTo cut 0 partitions := fun _ h => absurd h (Nat.not_lt_zero _)

/-- Writing the next part into its slot. -/
theorem PartsUpTo.set {cut : ℕ → ℕ} {m : ℕ} {partitions : List Partition}
    (h : PartsUpTo cut m partitions) (hm : m < partitions.length) {partition : Partition}
    (hworker : partition.workerIndex.toNat = m) (hbegin : partition.begin.toNat = cut m)
    (hend : partition.end.toNat = cut (m + 1)) :
    PartsUpTo cut (m + 1) (partitions.set m partition) := by
  intro slot hslot
  rcases Nat.lt_succ_iff_lt_or_eq.mp hslot with hlt | rfl
  · rw [List.getElem?_set_ne (Nat.ne_of_gt hlt)]
    exact h slot hlt
  · refine ⟨partition, ?_, hworker, hbegin, hend⟩
    rw [List.getElem?_set_self hm]

/-- Appending the next part. -/
theorem PartsUpTo.push {cut : ℕ → ℕ} {m : ℕ} {partitions : List Partition}
    (h : PartsUpTo cut m partitions) (hm : partitions.length = m) {partition : Partition}
    (hworker : partition.workerIndex.toNat = m) (hbegin : partition.begin.toNat = cut m)
    (hend : partition.end.toNat = cut (m + 1)) :
    PartsUpTo cut (m + 1) (partitions ++ [partition]) := by
  intro slot hslot
  rcases Nat.lt_succ_iff_lt_or_eq.mp hslot with hlt | rfl
  · rw [List.getElem?_append_left (by rw [hm]; exact hlt)]
    exact h slot hlt
  · refine ⟨partition, ?_, hworker, hbegin, hend⟩
    rw [← hm, List.getElem?_append_right (le_refl _), Nat.sub_self]
    rfl

/-- The partitions determine the cut. -/
theorem Partitioned.unique {partitions : List Partition} {cut cut' : ℕ → ℕ} {k n : ℕ}
    (h : Partitioned partitions cut k n) (h' : Partitioned partitions cut' k n) {i : ℕ}
    (hi : i ≤ k) : cut i = cut' i := by
  rcases Nat.lt_or_eq_of_le hi with hlt | rfl
  · obtain ⟨partition, hget, -, hbegin, -⟩ := h.parts i hlt
    obtain ⟨partition', hget', -, hbegin', -⟩ := h'.parts i hlt
    rw [hget] at hget'
    rw [← hbegin, ← hbegin', Option.some.inj hget']
  · rw [h.cuts.stop, h'.cuts.stop]

/-- What an admitted request projects to. -/
structure Projected (request : PartitionRequest) (alignment units count : UInt32) : Prop where
  packets_pos : 0 < request.packetCount.toNat
  alignment_pos : 0 < alignment.toNat
  units_mul : units.toNat * alignment.toNat = request.packetCount.toNat
  count_pos : 0 < count.toNat
  count_le_units : count.toNat ≤ units.toNat
  count_le_width : count.toNat ≤ request.executionWidth.toNat

theorem toNat_pos_of_ne_zero {a : UInt32} (h : a ≠ 0) : 0 < a.toNat :=
  Nat.pos_of_ne_zero fun h0 => h (UInt32.toNat_inj.mp h0)

/-- The units of an alignment that can be used are all of the same size. -/
theorem resolvePartitionUnits_mul {packetCount alignment : UInt32}
    (h : alignment = 1 ∨ 1 < alignment ∧ packetCount % alignment = 0) :
    (resolvePartitionUnits packetCount alignment).toNat * alignment.toNat =
      packetCount.toNat := by
  rcases h with rfl | ⟨hlarge, hmod⟩
  · rw [resolvePartitionUnits, if_pos (by decide)]
    exact Nat.mul_one _
  · have hle : ¬ alignment ≤ 1 := by
      rw [UInt32.le_iff_toNat_le]
      rw [UInt32.lt_iff_toNat_lt] at hlarge
      exact not_le.mpr hlarge
    have hno : ¬ (alignment ≤ 1 ∨ packetCount % alignment ≠ 0) := by
      rintro (h | h)
      · exact hle h
      · exact h hmod
    have hnat : packetCount.toNat % alignment.toNat = 0 := by
      rw [← UInt32.toNat_mod, hmod]
      rfl
    rw [resolvePartitionUnits, if_neg hle, resolveAlignmentGroupCount, if_neg hno,
      UInt32.toNat_div]
    exact Nat.div_mul_cancel (Nat.dvd_of_mod_eq_zero hnat)

/-- The alignment a projection settles on divides the packets into units. -/
theorem projected_alignment (request : PartitionRequest) {a : UInt32}
    (ha : a = if canUseAlignedPartitions request then request.preferredAlignmentPackets else 1) :
    a = 1 ∨ 1 < a ∧ request.packetCount % a = 0 := by
  by_cases h : canUseAlignedPartitions request = true
  · rw [if_pos h] at ha
    subst ha
    simp only [canUseAlignedPartitions, Bool.and_eq_true, beq_iff_eq, decide_eq_true_eq] at h
    exact Or.inr ⟨h.1.1.1, h.1.1.2⟩
  · rw [if_neg h] at ha
    exact Or.inl ha

/-- **Projection**: an admitted request has at least one slot, and no more slots than workers or
than units, and its units are all of the same size. -/
theorem projected {request : PartitionRequest} (h : (projectPartitions request).ok = true) :
    Projected request (projectPartitions request).alignmentPackets
      (resolvePartitionUnits request.packetCount (projectPartitions request).alignmentPackets)
      (projectPartitions request).partitionCount := by
  rw [projectPartitions] at h ⊢
  by_cases hpackets : request.packetCount = 0
  · simp [hpackets, projectionFailure] at h
  by_cases hwidth : request.executionWidth = 0
  · simp [hpackets, hwidth, projectionFailure] at h
  simp only [if_neg hpackets, if_neg hwidth] at h ⊢
  have halign := projected_alignment request rfl
  generalize (if canUseAlignedPartitions request = true then request.preferredAlignmentPackets
    else 1) = a at h halign ⊢
  have hmul := resolvePartitionUnits_mul halign
  have hpos : 0 < request.packetCount.toNat := toNat_pos_of_ne_zero hpackets
  by_cases hunits : resolvePartitionUnits request.packetCount a = 0
  · simp [hunits, projectionFailure] at h
  have hwidthPos : 0 < request.executionWidth.toNat := toNat_pos_of_ne_zero hwidth
  have hunitsPos := toNat_pos_of_ne_zero hunits
  have hcount : (resolvePartitionCount request.executionWidth
      (resolvePartitionUnits request.packetCount a)).toNat =
        min (resolvePartitionUnits request.packetCount a).toNat request.executionWidth.toNat := by
    rw [resolvePartitionCount, clampKernelWidth, toNat_max, toNat_min, toNat_max]
    show max 1 (min _ (max 1 _)) = _
    rw [max_eq_right (show 1 ≤ request.executionWidth.toNat from hwidthPos),
      max_eq_right (le_min hunitsPos hwidthPos)]
  simp only [if_neg hunits]
  exact {
    packets_pos := hpos
    alignment_pos := by
      apply Nat.pos_of_ne_zero
      intro hzero
      rw [hzero, Nat.mul_zero] at hmul
      exact absurd hmul (Nat.ne_of_lt hpos)
    units_mul := hmul
    count_pos := by rw [hcount]; exact lt_min hunitsPos hwidthPos
    count_le_units := by rw [hcount]; exact min_le_left _ _
    count_le_width := by rw [hcount]; exact min_le_right _ _ }

/-- The projection of a partition request is that of the schedule request it comes from. -/
theorem projectPartitions_of_schedule {schedule : ScheduleCompileRequest}
    {request : PartitionRequest} (hpackets : request.packetCount = schedule.packetCount)
    (hwidth : request.executionWidth = schedule.executionWidth)
    (halign : request.preferredAlignmentPackets = requestedAlignment schedule) :
    projectPartitions request = RunD.projectPartitions schedule := by
  have hcan : canUseAlignedPartitions request = RunD.canUseAlignedPartitions schedule := by
    rw [canUseAlignedPartitions, RunD.canUseAlignedPartitions, hpackets, hwidth, halign]
  rw [projectPartitions, RunD.projectPartitions, hpackets, hwidth, hcan, halign]
  simp only [projectionFailure, RunD.projectionFailure, hpackets, hwidth]

/-! ### The even cut of the units -/

theorem toNat_ofNat_lt {n : ℕ} (h : n < 2 ^ 32) : (UInt32.ofNat n).toNat = n := by
  rw [UInt32.toNat_ofNat', Nat.mod_eq_of_lt h]

theorem toNat_add_fits {a b : UInt32} (h : a.toNat + b.toNat < 2 ^ 32) :
    (a + b).toNat = a.toNat + b.toNat := by
  rw [UInt32.toNat_add, Nat.mod_eq_of_lt h]

theorem toNat_mul_fits {a b : UInt32} (h : a.toNat * b.toNat < 2 ^ 32) :
    (a * b).toNat = a.toNat * b.toNat := by
  rw [UInt32.toNat_mul, Nat.mod_eq_of_lt h]

section
variable {ε : Type} {E : ε → Prop}

/-- The width of a slot is its part of the even cut. -/
theorem toNat_unitWidth (units : UInt32) {count : UInt32} {slot : ℕ} (hslot : slot < count.toNat) :
    (units / count + if UInt32.ofNat slot < units % count then 1 else 0).toNat =
      units.toNat / count.toNat + if slot < units.toNat % count.toNat then 1 else 0 := by
  have hcount := count.toNat_lt
  have hunits := units.toNat_lt
  have hpos : 0 < count.toNat := Nat.lt_of_le_of_lt (Nat.zero_le _) hslot
  have hiff : UInt32.ofNat slot < units % count ↔ slot < units.toNat % count.toNat := by
    rw [UInt32.lt_iff_toNat_lt, toNat_ofNat_lt (hslot.trans hcount), UInt32.toNat_mod]
  by_cases h : slot < units.toNat % count.toNat
  · rw [if_pos (hiff.mpr h), if_pos h]
    rw [toNat_add_fits, UInt32.toNat_div]
    · rfl
    · -- a slot gets one unit more only where the division leaves a remainder
      have hdiv := Nat.div_add_mod units.toNat count.toNat
      have hle : units.toNat / count.toNat ≤ count.toNat * (units.toNat / count.toNat) :=
        Nat.le_mul_of_pos_left _ hpos
      rw [UInt32.toNat_div]
      show _ + 1 < 2 ^ 32
      omega
  · rw [if_neg fun hlt => h (hiff.mp hlt), if_neg h]
    simp

/-- **The unit builder** deals out the units evenly, whatever the output array held. -/
theorem ends_buildUnitPartitionsInto {outPartitions : List Partition}
    {units count alignment : UInt32} (hcount : 0 < count.toNat)
    (hunits : count.toNat ≤ units.toNat) (hfits : units.toNat * alignment.toNat < 2 ^ 32)
    (hroom : count.toNat ≤ outPartitions.length) :
    Ends (buildUnitPartitionsInto outPartitions units count alignment)
      (fun built => built.length = outPartitions.length ∧
        PartsUpTo (fun i => evenCut units.toNat count.toNat i * alignment.toNat) count.toNat
          built) E := by
  have hcut := cuts_evenCut hcount hunits
  have hne : ¬ (units = 0 ∨ count = 0) := by
    rintro (rfl | rfl)
    · exact absurd (lt_of_lt_of_le hcount hunits) (lt_irrefl _)
    · exact absurd hcount (lt_irrefl _)
  rw [buildUnitPartitionsInto, if_neg hne]
  -- before slot `m` the first `m` parts stand in the array and the next one starts at the cut
  refine Ends.bind (ends_forRange (fun m (state : UInt32 × List Partition) =>
    state.1.toNat = evenCut units.toNat count.toNat m ∧
      state.2.length = outPartitions.length ∧
      PartsUpTo (fun i => evenCut units.toNat count.toNat i * alignment.toNat) m state.2)
    ⟨?_, rfl, partsUpTo_zero _ _⟩ ?_) ?_
  · exact hcut.start.symm
  · rintro slot ⟨unitBegin, partitions⟩ hslot ⟨hbegin, hlength, hparts⟩
    dsimp only at hbegin hlength hparts ⊢
    have hwidth := toNat_unitWidth units hslot
    generalize units / count + (if UInt32.ofNat slot < units % count then 1 else 0) = unitWidth
      at hwidth ⊢
    have hnext : unitBegin.toNat + unitWidth.toNat =
        evenCut units.toNat count.toNat (slot + 1) := by
      rw [evenCut_succ, hbegin, hwidth]
    have hle : evenCut units.toNat count.toNat (slot + 1) ≤ units.toNat := hcut.le hslot
    have hend : (unitBegin + unitWidth).toNat = evenCut units.toNat count.toNat (slot + 1) := by
      rw [toNat_add_fits, hnext]
      rw [hnext]
      exact lt_of_le_of_lt hle units.toNat_lt
    have hscale : ∀ {place : UInt32}, place.toNat ≤ units.toNat →
        (place * alignment).toNat = place.toNat * alignment.toNat := fun hplace =>
      toNat_mul_fits (lt_of_le_of_lt (Nat.mul_le_mul_right _ hplace) hfits)
    have hin : slot < partitions.length := by
      rw [hlength]
      exact lt_of_lt_of_le hslot hroom
    rw [assign_of_lt hin, ok_bind]
    refine ends_pure ⟨hend, ?_, hparts.set hin ?_ ?_ ?_⟩
    · rw [List.length_set, hlength]
    · exact toNat_ofNat_lt (hslot.trans count.toNat_lt)
    · rw [hscale (by rw [hbegin]; exact hcut.le hslot.le), hbegin]
    · rw [hscale (by rw [hend]; exact hle), hend]
  · rintro ⟨unitEnd, partitions⟩ ⟨-, hlength, hparts⟩
    exact ends_pure ⟨hlength, hparts⟩

theorem ends_buildUnitPartitions {units count alignment : UInt32} (hcount : 0 < count.toNat)
    (hunits : count.toNat ≤ units.toNat) (hfits : units.toNat * alignment.toNat < 2 ^ 32)
    (halign : 0 < alignment.toNat) :
    Ends (buildUnitPartitions units count alignment)
      (fun built => Partitioned built
        (fun i => evenCut units.toNat count.toNat i * alignment.toNat) count.toNat
        (units.toNat * alignment.toNat)) E := by
  have hne : ¬ (units = 0 ∨ count = 0) := by
    rintro (rfl | rfl)
    · exact absurd (lt_of_lt_of_le hcount hunits) (lt_irrefl _)
    · exact absurd hcount (lt_irrefl _)
  rw [buildUnitPartitions, if_neg hne]
  refine Ends.mono_post (ends_buildUnitPartitionsInto hcount hunits hfits ?_) ?_
  · rw [List.length_replicate]
  · rintro built ⟨hlength, hparts⟩
    refine ⟨(cuts_evenCut hcount hunits).scale halign, ?_, hparts⟩
    rw [hlength, List.length_replicate]

/-- **The planner's validation** passes on every cut of the packets, and finds its widest part. -/
theorem ends_validatePartitionCoverage {partitions : List Partition} {cut : ℕ → ℕ}
    {count packetCount : UInt32} (hcount : 0 < count.toNat)
    (h : Partitioned partitions cut count.toNat packetCount.toNat) :
    Ends (validatePartitionCoverage partitions count packetCount)
      (fun coverage => ∃ widest : UInt32, coverage = some widest ∧
        widest.toNat = widestPart cut count.toNat) E := by
  have hne : count ≠ 0 := by
    rintro rfl
    exact absurd hcount (lt_irrefl _)
  have hlast : (count - 1).toNat = count.toNat - 1 :=
    UInt32.toNat_sub_of_le _ _ (by rw [UInt32.le_iff_toNat_le]; exact hcount)
  obtain ⟨first, hfirst, -, hfirstBegin, -⟩ := h.parts 0 hcount
  obtain ⟨last, hlastGet, -, -, hlastEnd⟩ := h.parts (count.toNat - 1) (Nat.sub_lt hcount one_pos)
  rw [Nat.sub_add_cancel (show 1 ≤ count.toNat from hcount), h.cuts.stop] at hlastEnd
  rw [h.cuts.start] at hfirstBegin
  apply Ends.call
  refine Ends.require_bind (fun hno => absurd hne hno) fun _ => ?_
  rw [fetch_of_lt hfirst, ok_bind]
  refine Ends.require_bind (fun hno => absurd (UInt32.toNat_inj.mp hfirstBegin) hno) fun _ => ?_
  rw [hlast, fetch_of_lt hlastGet, ok_bind]
  refine Ends.require_bind (fun hno => absurd (UInt32.toNat_inj.mp hlastEnd) hno) fun _ => ?_
  -- after `m` partitions the walk stands at the cut and has the widest of these parts
  refine Ends.bind (ends_forRange (fun m (state : UInt32 × UInt32) =>
    state.1.toNat = widestPart cut m ∧ state.2.toNat = cut m) ⟨rfl, h.cuts.start.symm⟩ ?_) ?_
  · rintro index ⟨widest, expected⟩ hindex ⟨hwidest, hexpected⟩
    dsimp only at hwidest hexpected ⊢
    obtain ⟨partition, hget, -, hbegin, hend⟩ := h.parts index hindex
    have hstep := h.cuts.step index hindex
    have hwidth : (partition.end - partition.begin).toNat = cut (index + 1) - cut index := by
      rw [UInt32.toNat_sub_of_le, hbegin, hend]
      rw [UInt32.le_iff_toNat_le, hbegin, hend]
      exact hstep.le
    rw [fetch_of_lt hget, ok_bind]
    refine Ends.require_bind (fun hno => absurd (UInt32.toNat_inj.mp ?_) hno) fun _ => ?_
    · rw [hbegin, hexpected]
    refine Ends.require_bind (fun hno => absurd ?_ hno) fun _ => ?_
    · rw [UInt32.lt_iff_toNat_lt, hbegin, hend]
      exact hstep
    refine Ends.require_bind (fun hno => absurd ?_ hno) fun _ => ?_
    · rw [UInt32.le_iff_toNat_le, hend]
      exact h.cuts.le hindex
    refine ends_pure ⟨?_, hend⟩
    rw [toNat_max, hwidth, hwidest, widestPart_succ]
  · rintro ⟨widest, expected⟩ ⟨hwidest, -⟩
    exact ends_pure ⟨widest, rfl, hwidest⟩

end

/-! ### Uniform partitioning succeeds -/

/-- `partitions` deal the packets out evenly in units of `alignment` packets. -/
structure EvenlyPartitioned (partitions : List Partition) (alignment count packets : ℕ)
    (unitCut : ℕ → ℕ) : Prop where
  balanced : ∀ i j, i < count → j < count →
    unitCut (i + 1) - unitCut i ≤ unitCut (j + 1) - unitCut j + 1
  partitioned : Partitioned partitions (fun slot => unitCut slot * alignment) count packets

theorem Projected.evenly {request : PartitionRequest} {alignment units count : UInt32}
    (h : Projected request alignment units count) {partitions : List Partition}
    (hlength : partitions.length = count.toNat)
    (hparts : PartsUpTo (fun i => evenCut units.toNat count.toNat i * alignment.toNat) count.toNat
      partitions) :
    EvenlyPartitioned partitions alignment.toNat count.toNat request.packetCount.toNat
      (evenCut units.toNat count.toNat) where
  balanced i j _ _ := evenCut_balanced _ _ i j
  partitioned := by
    refine ⟨?_, hlength, hparts⟩
    rw [← h.units_mul]
    exact (cuts_evenCut h.count_pos h.count_le_units).scale h.alignment_pos

theorem Projected.units_fit {request : PartitionRequest} {alignment units count : UInt32}
    (h : Projected request alignment units count) : units.toNat * alignment.toNat < 2 ^ 32 := by
  rw [h.units_mul]
  exact request.packetCount.toNat_lt

/-- **Uniform partitioning**: of a request that passes validation, the unit builder and the dynamic
builder deal out the units evenly, into nonempty consecutive partitions that cover the packets and
start at multiples of the alignment, and the planner's own validation passes on them. -/
theorem uniform_partitions {request : PartitionRequest}
    (h : (projectPartitions request).ok = true) :
    let projection := projectPartitions request
    let alignment := projection.alignmentPackets
    let units := resolvePartitionUnits request.packetCount alignment
    let count := projection.partitionCount
    units.toNat * alignment.toNat = request.packetCount.toNat ∧
      ∃ unitCut : ℕ → ℕ, Cuts unitCut count.toNat units.toNat ∧
        (∀ outPartitions : List Partition, outPartitions.length = count.toNat →
          ∃ built, (buildUnitPartitionsInto outPartitions units count alignment :
              Planning (List Partition)) = Except.ok built ∧
            EvenlyPartitioned built alignment.toNat count.toNat request.packetCount.toNat
              unitCut) ∧
        ∃ (partitions : List Partition) (widest : UInt32) (build : PartitionBuild),
          EvenlyPartitioned partitions alignment.toNat count.toNat request.packetCount.toNat
            unitCut ∧
          (validatePartitionCoverage partitions count request.packetCount :
            Planning (Option UInt32)) = Except.ok (some widest) ∧
          buildPartitions request = Except.ok (build, partitions) ∧ build.ok = true := by
  have hp := projected h
  dsimp only
  refine ⟨hp.units_mul, _, cuts_evenCut hp.count_pos hp.count_le_units, ?_, ?_⟩
  · intro outPartitions hlength
    obtain ⟨built, hbuilt, hkept, hparts⟩ := Ends.returns
      (ends_buildUnitPartitionsInto (ε := Built) hp.count_pos hp.count_le_units hp.units_fit
        hlength.ge)
    exact ⟨built, hbuilt, hp.evenly (hkept.trans hlength) hparts⟩
  · obtain ⟨partitions, hbuilt, hpart⟩ := Ends.returns
      (ends_buildUnitPartitions (ε := Built) hp.count_pos hp.count_le_units hp.units_fit
        hp.alignment_pos)
    have heven := hp.evenly hpart.length hpart.parts
    obtain ⟨coverage, hvalid, widest, rfl, -⟩ := Ends.returns
      (ends_validatePartitionCoverage (ε := Built) hp.count_pos heven.partitioned)
    have hrun : ∃ build, buildPartitions request = Except.ok (build, partitions) ∧
        build.ok = true := by
      rw [buildPartitions, require_of_holds h, ok_bind]
      dsimp only
      rw [hbuilt, ok_bind, hpart.length, UInt32.ofNat_toNat, hvalid, ok_bind]
      exact ⟨_, rfl, rfl⟩
    obtain ⟨build, hbuild, hok⟩ := hrun
    exact ⟨partitions, widest, build, heven, hvalid, hbuild, hok⟩

/-- Seven units of four packets, dealt to three workers. -/
theorem uniform_partitions_seven :
    ∃ (partitions : List Partition) (build : PartitionBuild),
      buildPartitions { packetCount := 28, executionWidth := 3, preferredAlignmentPackets := 4 } =
        Except.ok (build, partitions) ∧ build.ok = true := by
  obtain ⟨-, _, -, -, partitions, -, build, -, -, hbuild, hok⟩ :=
    uniform_partitions (show (projectPartitions
      { packetCount := 28, executionWidth := 3, preferredAlignmentPackets := 4 }).ok = true by
        decide)
  exact ⟨partitions, build, hbuild, hok⟩

end RunD.Planner
