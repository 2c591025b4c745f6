/-
A weighted schedule is a partition of the packets.

The work units that the source of a request gives are those of the packets
(`ends_materialize`), dealing the order by partition puts each partition's
packets in one range (`ends_scatterWeightedPacketOrder`), and the ranges follow
each other without gap or overlap.  What a compiled schedule is for is stated in
`ScheduleSpec`; `compileWeighted_partitions` is the assembly.
-/
import RunD.WeightedAssign
import Mathlib.Data.Finset.Lattice.Fold
import Mathlib.Order.Lattice.Nat

namespace RunD

variable {E : WeightedExit → Prop}

/-! ### Projections -/

theorem toNat_max (a b : UInt32) : (max a b).toNat = max a.toNat b.toNat := by
  show (if a ≤ b then b else a).toNat = _
  by_cases h : a ≤ b
  · rw [if_pos h]
    rw [UInt32.le_iff_toNat_le] at h
    omega
  · rw [if_neg h]
    rw [UInt32.le_iff_toNat_le] at h
    omega

theorem toNat_min (a b : UInt32) : (min a b).toNat = min a.toNat b.toNat := by
  show (if a ≤ b then a else b).toNat = _
  by_cases h : a ≤ b
  · rw [if_pos h]
    rw [UInt32.le_iff_toNat_le] at h
    omega
  · rw [if_neg h]
    rw [UInt32.le_iff_toNat_le] at h
    omega

theorem resolvePartitionUnits_le (packetCount alignment : UInt32) :
    (resolvePartitionUnits packetCount alignment).toNat ≤ packetCount.toNat := by
  rw [resolvePartitionUnits, resolveAlignmentGroupCount]
  by_cases h : alignment ≤ 1
  · rw [if_pos h]
  · rw [if_neg h]
    by_cases h' : alignment ≤ 1 ∨ packetCount % alignment ≠ 0
    · rw [if_pos h']
    · rw [if_neg h', UInt32.toNat_div]
      exact Nat.div_le_self _ _

/-- A projection has at least one partition and at most one per packet. -/
theorem projectSchedule_bounds {request : ScheduleCompileRequest}
    (h : (projectSchedule request).ok = true) :
    (projectSchedule request).packetCount = request.packetCount ∧
      0 < (projectSchedule request).partitionCount.toNat ∧
      (projectSchedule request).partitionCount.toNat ≤ request.packetCount.toNat := by
  rw [projectSchedule, projectPartitions] at h ⊢
  by_cases hpackets : request.packetCount = 0
  · rw [if_pos hpackets] at h
    exact absurd h (by simp [projectionFailure])
  by_cases hwidth : request.executionWidth = 0
  · rw [if_neg hpackets, if_pos hwidth] at h
    exact absurd h (by simp [projectionFailure])
  simp only [if_neg hpackets, if_neg hwidth] at h ⊢
  have hle := resolvePartitionUnits_le request.packetCount
    (if canUseAlignedPartitions request = true then requestedAlignment request else 1)
  have hpos : 0 < request.packetCount.toNat := by
    refine Nat.pos_of_ne_zero fun h0 => hpackets (UInt32.toNat_inj.mp h0)
  generalize resolvePartitionUnits request.packetCount _ = units at h hle ⊢
  by_cases hunits : units = 0
  · simp only [if_pos hunits] at h
    exact absurd h (by simp [projectionFailure])
  · simp only [if_neg hunits] at h ⊢
    refine ⟨trivial, ?_, ?_⟩
    · show 0 < (resolvePartitionCount request.executionWidth units).toNat
      rw [resolvePartitionCount, toNat_max]
      exact lt_of_lt_of_le Nat.zero_lt_one (Nat.le_max_left _ _)
    · show (resolvePartitionCount request.executionWidth units).toNat ≤ _
      rw [resolvePartitionCount, toNat_max, toNat_min]
      show max 1 _ ≤ _
      omega

/-! ### Work units -/

/-- The checks a request has to pass before any buffer is written. -/
structure Admitted (workspace : Workspace) (request : ScheduleCompileRequest)
    (projection : PartitionProjection) : Prop where
  hints : packetHintsValid request = true
  units : hasWorkUnits request = true
  source : classifyWeightedWorkSource workspace request ≠ .invalid
  capacity : hasWeightedNoGrowthCapacity workspace projection = true

theorem normalizeWorkUnits_pos (units : UInt64) : 1 ≤ (normalizeWorkUnits units).toNat := by
  rw [normalizeWorkUnits]
  by_cases h : units = 0
  · rw [if_pos h]
    exact Nat.le_refl _
  · rw [if_neg h]
    exact Nat.pos_of_ne_zero fun h0 => h (UInt64.toNat_inj.mp h0)

theorem packetWorkUnitsAt_pos (workspace : Workspace) (request : ScheduleCompileRequest)
    (packet : Nat) : 1 ≤ (packetWorkUnitsAt workspace request packet).toNat := by
  rw [packetWorkUnitsAt]
  by_cases h1 : hasExactWorkUnits request = true
  · rw [if_pos h1]
    exact normalizeWorkUnits_pos _
  · by_cases h2 : hasExactHints request = true
    · rw [if_neg h1, if_pos h2]
      exact normalizeWorkUnits_pos _
    · rw [if_neg h1, if_neg h2]
      exact Nat.le_refl _

theorem resize_same {α : Type} (v : Vec α) {n : Nat} (fill : α) (h : v.items.length = n) :
    (v.resize n fill).items = v.items := by
  show v.items.take n ++ List.replicate (n - v.items.length) fill = v.items
  rw [List.take_of_length_le (by omega), Nat.sub_eq_zero_of_le (by omega), List.replicate_zero,
    List.append_nil]

/-- **What a valid source of work units is**: exact units outside the workspace, exact hints, or
the workspace's own units, which the span then shows from their first word on. -/
theorem classify_cases {workspace : Workspace} {request : ScheduleCompileRequest}
    (hne : request.packetCount ≠ 0)
    (hsource : classifyWeightedWorkSource workspace request ≠ .invalid) :
    (classifyWeightedWorkSource workspace request = .externalWorkUnits ∧
      hasExactWorkUnits request = true ∧
      ∃ values, request.packetWorkUnits = .external values) ∨
    (classifyWeightedWorkSource workspace request = .hints ∧ hasExactWorkUnits request = false ∧
      hasExactHints request = true) ∨
    (classifyWeightedWorkSource workspace request = .workspacePacketWorkUnits ∧
      hasExactWorkUnits request = true ∧
      workspace.packetWorkUnits.items.length = request.packetCount.toNat ∧
      request.packetWorkUnits = .owned .packetWorkUnits 0 request.packetCount.toNat) := by
  have hnat : request.packetCount.toNat ≠ 0 := fun h0 => hne (UInt32.toNat_inj.mp h0)
  revert hsource
  rw [classifyWeightedWorkSource]
  simp only [if_neg hne]
  by_cases hlong : request.packetWorkUnits.size ≠ 0 ∧
      request.packetCount.toNat < request.packetWorkUnits.size
  · rw [if_pos hlong]
    exact fun h => absurd rfl h
  by_cases hother : request.packetWorkUnits.size ≠ 0 ∧
      (overlapsOwnedCapacity .partitionLoads request.packetWorkUnits = true ∨
        overlapsOwnedCapacity .foldSlots request.packetWorkUnits = true)
  · rw [if_neg hlong, if_pos hother]
    exact fun h => absurd rfl h
  rw [if_neg hlong, if_neg hother]
  by_cases hown : request.packetWorkUnits.size ≠ 0 ∧
      overlapsOwnedCapacity .packetWorkUnits request.packetWorkUnits = true
  · rw [if_pos hown]
    by_cases hexact : hasExactWorkUnits request = true ∧
        startsOwned .packetWorkUnits request.packetWorkUnits = true ∧
        workspace.packetWorkUnits.items.length = request.packetCount.toNat
    · rw [if_pos hexact]
      refine fun _ => Or.inr (Or.inr ⟨rfl, hexact.1, hexact.2.2, ?_⟩)
      have hsize : request.packetWorkUnits.size = request.packetCount.toNat :=
        beq_iff_eq.mp hexact.1
      have hstarts := hexact.2.1
      rcases hspan : request.packetWorkUnits with values | ⟨own, offset, size⟩
      · rw [hspan] at hstarts
        exact absurd hstarts (by simp [startsOwned])
      · rw [hspan] at hstarts hsize
        rw [startsOwned, Bool.and_eq_true, beq_iff_eq, beq_iff_eq] at hstarts
        rw [hstarts.1, hstarts.2, ← hsize]
        rfl
    · rw [if_neg hexact]
      exact fun h => absurd rfl h
  rw [if_neg hown]
  by_cases hexact : hasExactWorkUnits request = true
  · rw [if_pos hexact]
    refine fun _ => Or.inl ⟨rfl, hexact, ?_⟩
    have hsize : request.packetWorkUnits.size = request.packetCount.toNat := beq_iff_eq.mp hexact
    rcases hspan : request.packetWorkUnits with values | ⟨own, offset, size⟩
    · exact ⟨values, rfl⟩
    · -- a range of the workspace's own storage was caught by one of the tests before
      exfalso
      rw [hspan] at hsize hother hown
      have hwords : size ≠ 0 := fun h0 => hnat (hsize.symm.trans h0)
      cases own with
      | packetWorkUnits => exact hown ⟨hwords, by simp [overlapsOwnedCapacity, hwords]⟩
      | partitionLoads => exact hother ⟨hwords, Or.inl (by simp [overlapsOwnedCapacity, hwords])⟩
      | foldSlots => exact hother ⟨hwords, Or.inr (by simp [overlapsOwnedCapacity, hwords])⟩
  · rw [if_neg hexact]
    by_cases hhints : hasExactHints request = true
    · rw [if_pos hhints]
      exact fun _ => Or.inr (Or.inl ⟨rfl, Bool.not_eq_true _ ▸ hexact, hhints⟩)
    · rw [if_neg hhints]
      exact fun h => absurd rfl h

/-- The unit that a valid source gives a packet is the packet's, as long as the packet's place has
not been written. -/
theorem workUnitsFrom_eq {workspace prepared : Workspace} {request : ScheduleCompileRequest}
    {units : List UInt64} {packet : Nat} (hne : request.packetCount ≠ 0)
    (hsource : classifyWeightedWorkSource workspace request ≠ .invalid)
    (hpacket : packet < request.packetCount.toNat)
    (hlen : units.length = request.packetCount.toNat)
    (hsame : workspace.packetWorkUnits.items.length = request.packetCount.toNat →
      units.getD packet 0 = workspace.packetWorkUnits.items.getD packet 0) :
    workUnitsFrom prepared request (classifyWeightedWorkSource workspace request) units packet =
      Except.ok (packetWorkUnitsAt workspace request packet) := by
  rcases classify_cases hne hsource with ⟨hkind, hexact, values, hspan⟩ |
    ⟨hkind, hexact, hhints⟩ | ⟨hkind, hexact, hown, hspan⟩
  · have hsize : values.length = request.packetCount.toNat := by
      have := beq_iff_eq.mp hexact
      rwa [hspan] at this
    rw [hkind, packetWorkUnitsAt, if_pos hexact, hspan, workUnitsFrom, hspan]
    show (fetch values packet >>= _) = _
    rw [fetch_getD (d := 0) (by omega)]
    rfl
  · have hlength : request.packetHints.length = request.packetCount.toNat :=
      beq_iff_eq.mp hhints
    have hfull : ¬ request.packetHints.isEmpty = true := by
      rw [List.isEmpty_iff]
      intro h
      rw [h, List.length_nil] at hlength
      omega
    rw [hkind, packetWorkUnitsAt, if_neg (by simp [hexact]), if_pos hhints, workUnitsFrom,
      if_neg hfull, fetch_getD (d := {}) (by omega)]
    rfl
  · rw [hkind, packetWorkUnitsAt, if_pos hexact, hspan]
    show (fetch units packet >>= _) = _
    rw [fetch_getD (d := 0) (by omega), ok_bind, hsame hown]
    show Except.ok _ = Except.ok (normalizeWorkUnits
      (((workspace.packetWorkUnits.items.drop 0).take request.packetCount.toNat).getD packet 0))
    rw [List.drop_zero, ← hown, List.take_length]

/-- **Materializing gives each packet its work units**, whichever source they come from. -/
theorem ends_materialize {workspace prepared : Workspace} {request : ScheduleCompileRequest}
    {start : List UInt64} (hne : request.packetCount ≠ 0)
    (hsource : classifyWeightedWorkSource workspace request ≠ .invalid)
    (hlen : start.length = request.packetCount.toNat)
    (hstart : workspace.packetWorkUnits.items.length = request.packetCount.toNat →
      start = workspace.packetWorkUnits.items) :
    Ends (materializeWeightedWorkUnits prepared request
        (classifyWeightedWorkSource workspace request) start)
      (fun r => ∃ units, r = some units ∧ units.length = request.packetCount.toNat ∧
        ∀ packet, packet < request.packetCount.toNat →
          units.getD packet 0 = packetWorkUnitsAt workspace request packet) E := by
  rw [materializeWeightedWorkUnits, if_neg (by
    rintro (h | h)
    · exact h hlen
    · exact hsource h)]
  -- the places before `i` hold normalised units, those from `i` on what they held before
  refine Ends.bind (ends_forRange (fun i (units : List UInt64) =>
    units.length = request.packetCount.toNat ∧
    (∀ packet, packet < i → units.getD packet 0 = packetWorkUnitsAt workspace request packet) ∧
    ∀ packet, i ≤ packet → units.getD packet 0 = start.getD packet 0) ?_ ?_) ?_
  · exact ⟨hlen, fun packet h => absurd h (Nat.not_lt_zero packet), fun _ _ => rfl⟩
  · rintro i units hi ⟨hunits, hdone, hrest⟩
    rw [workUnitsFrom_eq hne hsource hi hunits fun hown => by
      rw [hrest i (Nat.le_refl _), hstart hown], ok_bind, assign_of_lt (by omega)]
    refine ⟨by rw [List.length_set, hunits], fun packet hlt => ?_, fun packet hle => ?_⟩
    · rw [getD_set (by omega)]
      by_cases heq : packet = i
      · rw [if_pos heq, heq]
      · rw [if_neg heq]
        exact hdone packet (by omega)
    · rw [getD_set (by omega), if_neg (by omega)]
      exact hrest packet (by omega)
  · rintro units ⟨hunits, hdone, -⟩
    exact ends_pure ⟨units, rfl, hunits, hdone⟩

/-! ### Dealing the order -/

section Deal

variable {resolved : List UInt64} {ordered : List UInt32} {assigned : Assignment}
  {partitions : Nat}

/-- The partition a packet was given to. -/
def partitionOf (assigned : Assignment) (packet : UInt32) : Nat :=
  wordAt assigned.partitionIndices packet.toNat

theorem partitionOf_lt {history : List (UInt32 × Nat)}
    (h : Recounts resolved partitions history assigned) {packet : UInt32}
    (hmem : packet ∈ history.map Prod.fst) : partitionOf assigned packet < partitions := by
  obtain ⟨⟨q, p⟩, hentry, rfl⟩ := List.mem_map.mp hmem
  rw [partitionOf, h.index q p hentry]
  exact h.run.machine_lt _ hentry

/-- The packets that stand in a partition are those the run gave it. -/
theorem inBucket_partitionOf {history : List (UInt32 × Nat)}
    (h : Recounts resolved partitions history assigned) (j : Nat) :
    inBucket (partitionOf assigned) (history.map Prod.fst) j = (given history j).map Prod.fst := by
  rw [inBucket, List.filter_map]
  refine congrArg (List.map Prod.fst) (List.filter_congr ?_)
  rintro ⟨q, p⟩ hentry
  show decide (partitionOf assigned q = j) = decide (p = j)
  rw [partitionOf, h.index q p hentry]

/-- The sizes of the partitions. -/
def partitionSize (assigned : Assignment) (ordered : List UInt32) (j : Nat) : Nat :=
  (inBucket (partitionOf assigned) ordered j).length

/-- **Dealing lays the partitions out one after the other.** -/
theorem ends_scatterWeightedPacketOrder {packetCount partitionCount : UInt32} {state : Ranges}
    {history : List (UInt32 × Nat)} (h : Recounts resolved partitionCount.toNat history assigned)
    (hordered : state.ordered = history.map Prod.fst)
    (hlen : state.ordered.length = packetCount.toNat)
    (hresolved : resolved.length = packetCount.toNat)
    (hbelow : ∀ packet ∈ state.ordered, packet.toNat < packetCount.toNat)
    (hscratch : state.scratch.length = packetCount.toNat)
    (hoffsets : state.offsets.length = partitionCount.toNat)
    (hwrite : state.writeOffsets.length = partitionCount.toNat) :
    Ends (scatterWeightedPacketOrder packetCount partitionCount assigned state)
      (fun r => r.1 = true ∧
        r.2.ordered = byBucket (partitionOf assigned) partitionCount.toNat state.ordered ∧
        r.2.offsets.length = partitionCount.toNat ∧
        ∀ j, j < partitionCount.toNat →
          wordAt r.2.offsets j = startOf (partitionSize assigned state.ordered) j) E := by
  have hword : packetCount.toNat < 2 ^ 32 := UInt32.toNat_lt _
  have hpart : ∀ packet ∈ state.ordered, partitionOf assigned packet < partitionCount.toNat := by
    intro packet hmem
    rw [hordered] at hmem
    exact partitionOf_lt h hmem
  have htotal : startOf (partitionSize assigned state.ordered) partitionCount.toNat =
      packetCount.toNat := by
    rw [← hlen]
    exact startOf_inBucket (partitionOf assigned) hpart
  have hcount : ∀ j, j < partitionCount.toNat →
      wordAt assigned.counts j = partitionSize assigned state.ordered j := by
    intro j hj
    rw [h.count j hj, partitionSize, hordered, inBucket_partitionOf h, List.length_map]
  have hcounts := h.counts_length
  rw [scatterWeightedPacketOrder]
  refine Ends.bind (ends_runningOffsets (partitionSize assigned state.ordered)
    (fun b (now : List UInt32 × List UInt32) =>
      now.1.length = partitionCount.toNat ∧ now.2.length = partitionCount.toNat ∧
      ∀ j, j < b → wordAt now.1 j = startOf (partitionSize assigned state.ordered) j ∧
        wordAt now.2 j = startOf (partitionSize assigned state.ordered) j)
    (by omega) ⟨hoffsets, hwrite, fun j hj => absurd hj (Nat.not_lt_zero j)⟩ ?_ ?_) ?_
  · intro b now hb _
    refine Ends.mono_post (ends_fetch (by omega)) fun count hget => ?_
    rw [← wordAt_of_getElem? hget]
    exact hcount b hb
  · rintro b offset now hb ⟨hlen1, hlen2, hdone⟩ hoffset
    rw [assign_of_lt (by omega), ok_bind, assign_of_lt (by omega), ok_bind]
    refine ends_pure ⟨by rw [List.length_set]; exact hlen1, by rw [List.length_set]; exact hlen2,
      fun j hj => ?_⟩
    rw [wordAt_set _ (by omega), wordAt_set _ (by omega)]
    by_cases hjb : j = b
    · rw [if_pos hjb, if_pos hjb, hoffset, hjb]
      exact ⟨rfl, rfl⟩
    · rw [if_neg hjb, if_neg hjb]
      exact hdone j (by omega)
  · rintro ⟨total, offsets, writeOffsets⟩ ⟨hsum, hlen1, hlen2, hstarts⟩
    have hfull : ¬ total ≠ packetCount := by
      rw [not_not]
      exact UInt32.toNat_inj.mp (hsum.trans htotal)
    simp only [if_neg hfull]
    have hbucketAt : ∀ packet ∈ state.ordered,
        (do let partition ← fetch assigned.partitionIndices packet.toNat
            pure partition.toNat : Scheduling Nat) = Except.ok (partitionOf assigned packet) ∧
          partitionOf assigned packet < partitionCount.toNat := by
      intro packet hmem
      refine ⟨?_, hpart packet hmem⟩
      rw [fetch_getD (d := 0) (by rw [h.indices_length, hresolved]; exact hbelow packet hmem)]
      rfl
    refine Ends.bind (ends_scatter _ _ (Nat.le_of_eq hlen2.symm) (by omega) (by omega) hbucketAt
      fun j hj => (hstarts j hj).2) ?_
    rintro ⟨write', written⟩ ⟨-, hwritten⟩
    have hlength : written.length = packetCount.toNat := by
      rw [show written = _ from hwritten, (byBucket_perm _ hpart).length_eq, hlen]
    refine ends_pure ⟨rfl, ?_, hlen1, fun j hj => (hstarts j hj).1⟩
    show written.take packetCount.toNat ++ state.ordered.drop packetCount.toNat = _
    rw [List.take_of_length_le (by omega), List.drop_eq_nil_of_le (by omega), List.append_nil]
    exact hwritten

/-- **The ranges cut the order where the partitions start**, and none of them is empty. -/
theorem ends_buildWeightedSchedulePartitions {packetCount partitionCount : UInt32}
    {counts : List UInt32} {ranges : Ranges} {start : List Partition} (sizes : Nat → Nat)
    (hcounts : counts.length = partitionCount.toNat)
    (hoffsets : ranges.offsets.length = partitionCount.toNat)
    (hstart : start.length = partitionCount.toNat)
    (hcount : ∀ j, j < partitionCount.toNat → wordAt counts j = sizes j)
    (hoffset : ∀ j, j < partitionCount.toNat → wordAt ranges.offsets j = startOf sizes j)
    (hpos : ∀ j, j < partitionCount.toNat → 0 < sizes j)
    (htotal : startOf sizes partitionCount.toNat = packetCount.toNat) :
    Ends (buildWeightedSchedulePartitions packetCount partitionCount counts ranges start)
      (fun r => ∃ maxPackets built, r = some (maxPackets, built) ∧
        built.length = partitionCount.toNat ∧
        ∀ j, j < partitionCount.toNat → ∃ p, built[j]? = some p ∧ p.workerIndex.toNat = j ∧
          p.begin.toNat = startOf sizes j ∧ p.end.toNat = startOf sizes (j + 1)) E := by
  have hword : packetCount.toNat < 2 ^ 32 := UInt32.toNat_lt _
  have hparts : partitionCount.toNat < 2 ^ 32 := UInt32.toNat_lt _
  refine Ends.mono_post (ends_forRange (fun i (r : Option (UInt32 × List Partition)) =>
    ∃ maxPackets built, r = some (maxPackets, built) ∧ built.length = partitionCount.toNat ∧
      ∀ j, j < i → ∃ p, built[j]? = some p ∧ p.workerIndex.toNat = j ∧
        p.begin.toNat = startOf sizes j ∧ p.end.toNat = startOf sizes (j + 1)) ?_ ?_) ?_
  · exact ⟨0, start, rfl, hstart, fun j hj => absurd hj (Nat.not_lt_zero j)⟩
  · rintro i r hi ⟨maxPackets, built, rfl, hbuilt, hdone⟩
    refine Ends.bind (ends_fetch (by omega)) fun first hfirst => ?_
    refine Ends.bind (ends_fetch (by omega)) fun count hget => ?_
    have hbegin : first.toNat = startOf sizes i := by
      rw [← wordAt_of_getElem? hfirst, hoffset i hi]
    have hsize : count.toNat = sizes i := by rw [← wordAt_of_getElem? hget, hcount i hi]
    have hmono : startOf sizes (i + 1) ≤ startOf sizes partitionCount.toNat := startOf_mono _ hi
    have hsum : first.toNat + count.toNat = startOf sizes (i + 1) := by
      rw [startOf_succ, hbegin, hsize]
    have hend : (first + count).toNat = startOf sizes (i + 1) := by
      rw [toNat_add_of_lt (by omega), hsum]
    have hpositive := hpos i hi
    have hgood : ¬ (first ≥ first + count ∨ first + count > packetCount) := by
      rw [ge_iff_le, gt_iff_lt, UInt32.le_iff_toNat_le, UInt32.lt_iff_toNat_lt, hend]
      omega
    simp only [if_neg hgood]
    rw [assign_of_lt (by omega), ok_bind]
    refine ends_pure ⟨_, _, rfl, by rw [List.length_set, hbuilt], fun j hj => ?_⟩
    by_cases hji : j = i
    · subst hji
      refine ⟨_, List.getElem?_set_self (by omega), ?_, hbegin, hend⟩
      rw [UInt32.toNat_ofNat']
      exact Nat.mod_eq_of_lt (by omega)
    · rw [List.getElem?_set_ne (Ne.symm hji)]
      exact hdone j (by omega)
  · exact fun r h => h

end Deal

/-! ### Compilation -/

/-- The packets of a range of the order. -/
def Partition.packets (ordered : List UInt32) (p : Partition) : List UInt32 :=
  (ordered.drop p.begin.toNat).take (p.end.toNat - p.begin.toNat)

/-- The work of a range: the sum of its packets' normalised work units. -/
def Partition.work (workspace : Workspace) (request : ScheduleCompileRequest)
    (ordered : List UInt32) (p : Partition) : Nat :=
  ((p.packets ordered).map fun packet =>
    (packetWorkUnitsAt workspace request packet.toNat).toNat).sum

/-- The largest normalised work of a packet. -/
def largestWork (workspace : Workspace) (request : ScheduleCompileRequest) : Nat :=
  (Finset.range request.packetCount.toNat).sup fun packet =>
    (packetWorkUnitsAt workspace request packet).toNat

/-- What a compiled weighted schedule is: its ranges are nonempty, follow each other from the first
place of the order to its end, the order holds every packet once, and unless some sum of work
passes 64 bits, the work of two ranges differs by at most the largest packet. -/
structure ScheduleSpec (workspace : Workspace) (request : ScheduleCompileRequest)
    (partitionCount : Nat) (ordered : List UInt32) (partitions : List Partition) : Prop where
  length : partitions.length = partitionCount
  worker : ∀ i (p : Partition), partitions[i]? = some p → p.workerIndex.toNat = i
  nonempty : ∀ p ∈ partitions, p.begin < p.end
  first : ∀ p : Partition, partitions[0]? = some p → p.begin = 0
  next : ∀ i (p q : Partition), partitions[i]? = some p → partitions[i + 1]? = some q → q.begin = p.end
  last : ∀ p : Partition, partitions[partitionCount - 1]? = some p → p.end = request.packetCount
  permutation : (ordered.map UInt32.toNat).Perm (List.range request.packetCount.toNat)
  balanced : (∀ p ∈ partitions, p.work workspace request ordered < 2 ^ 64) →
    ∀ p ∈ partitions, ∀ q ∈ partitions,
      p.work workspace request ordered ≤
        q.work workspace request ordered + largestWork workspace request

theorem map_toNat_allPackets {n : Nat} (hn : n < 2 ^ 32) :
    (allPackets n).map UInt32.toNat = List.range n := by
  rw [allPackets, List.map_map]
  refine (List.map_congr_left fun i hi => ?_).trans (List.map_id _)
  have hi : i < n := List.mem_range.mp hi
  show (UInt32.ofNat i).toNat = i
  rw [UInt32.toNat_ofNat']
  exact Nat.mod_eq_of_lt (by omega)

/-- The arrays after a whole assignment stage: a run over all packets, whose work is the
packets'. -/
structure FullRun (workspace : Workspace) (request : ScheduleCompileRequest)
    (resolved : List UInt64) (partitions : Nat) (history : List (UInt32 × Nat))
    (assigned : Assignment) : Prop where
  tracks : Recounts resolved partitions history assigned
  units : ∀ packet, packet < request.packetCount.toNat →
    resolved.getD packet 0 = packetWorkUnitsAt workspace request packet
  packets : (history.map Prod.fst).Perm (allPackets request.packetCount.toNat)
  partitions_le : partitions ≤ request.packetCount.toNat
  partitions_pos : 0 < partitions

namespace FullRun

variable {workspace : Workspace} {request : ScheduleCompileRequest} {resolved : List UInt64}
  {partitions : Nat} {history : List (UInt32 × Nat)} {assigned : Assignment}

theorem packet_lt (h : FullRun workspace request resolved partitions history assigned)
    {entry : UInt32 × Nat} (hmem : entry ∈ history) :
    entry.1.toNat < request.packetCount.toNat :=
  (mem_allPackets (UInt32.toNat_lt _)).mp (h.packets.mem_iff.mp (List.mem_map_of_mem hmem))

theorem packetWork_eq (h : FullRun workspace request resolved partitions history assigned)
    {entry : UInt32 × Nat} (hmem : entry ∈ history) :
    packetWork resolved entry.1 = (packetWorkUnitsAt workspace request entry.1.toNat).toNat :=
  congrArg UInt64.toNat (h.units _ (h.packet_lt hmem))

theorem packetWork_le (h : FullRun workspace request resolved partitions history assigned)
    {entry : UInt32 × Nat} (hmem : entry ∈ history) :
    packetWork resolved entry.1 ≤ largestWork workspace request := by
  rw [h.packetWork_eq hmem]
  exact Finset.le_sup (f := fun packet => (packetWorkUnitsAt workspace request packet).toNat)
    (Finset.mem_range.mpr (h.packet_lt hmem))

/-- The partitions hold all packets. -/
theorem total (h : FullRun workspace request resolved partitions history assigned) :
    startOf (partitionSize assigned (history.map Prod.fst)) partitions =
      request.packetCount.toNat := by
  refine (startOf_inBucket (partitionOf assigned) fun packet hmem =>
    partitionOf_lt h.tracks hmem).trans ?_
  rw [h.packets.length_eq, length_allPackets]

/-- No partition is empty. -/
theorem size_pos (h : FullRun workspace request resolved partitions history assigned) {j : Nat}
    (hj : j < partitions) : 0 < partitionSize assigned (history.map Prod.fst) j := by
  rw [partitionSize, inBucket_partitionOf h.tracks, List.length_map]
  refine List.length_pos_iff.mpr (h.tracks.run.covers ?_ (fun entry hmem => ?_) ?_ hj)
  · show 1 ≤ 2 ^ 64 - 1
    omega
  · rw [h.packetWork_eq hmem]
    exact packetWorkUnitsAt_pos _ _ _
  · have hlen := h.packets.length_eq
    rw [List.length_map, length_allPackets] at hlen
    have := h.partitions_le
    omega

/-- Ranges cut where the partitions of a run start make up a schedule. -/
theorem scheduleSpec (h : FullRun workspace request resolved partitions history assigned)
    {ordered : List UInt32} {built : List Partition}
    (hordered : ordered = byBucket (partitionOf assigned) partitions (history.map Prod.fst))
    (hlength : built.length = partitions)
    (hbuilt : ∀ j, j < partitions → ∃ p, built[j]? = some p ∧ p.workerIndex.toNat = j ∧
      p.begin.toNat = startOf (partitionSize assigned (history.map Prod.fst)) j ∧
      p.end.toNat = startOf (partitionSize assigned (history.map Prod.fst)) (j + 1)) :
    ScheduleSpec workspace request partitions ordered built := by
  -- the range at place `j` is the one of partition `j`
  have hat : ∀ j p, built[j]? = some p → j < partitions ∧ p.workerIndex.toNat = j ∧
      p.begin.toNat = startOf (partitionSize assigned (history.map Prod.fst)) j ∧
      p.end.toNat = startOf (partitionSize assigned (history.map Prod.fst)) (j + 1) := by
    intro j p hget
    have hj : j < partitions := by
      by_contra hge
      rw [List.getElem?_eq_none (by omega)] at hget
      exact absurd hget (by simp)
    obtain ⟨q, hq, hspec⟩ := hbuilt j hj
    rw [hget] at hq
    exact ⟨hj, Option.some.inj hq ▸ hspec⟩
  have hmem : ∀ p ∈ built, ∃ j, built[j]? = some p := fun p hp => by
    obtain ⟨j, hj, hget⟩ := List.mem_iff_getElem.mp hp
    exact ⟨j, by rw [List.getElem?_eq_getElem hj, hget]⟩
  have hload : ∀ j p, built[j]? = some p →
      p.work workspace request ordered = loadOf (packetWork resolved) history j := by
    intro j p hget
    obtain ⟨hj, -, hbegin, hend⟩ := hat j p hget
    have hslice := slice_byBucket (partitionOf assigned) (history.map Prod.fst) hj
    -- the range shows exactly the packets of its partition
    have hpackets : p.packets ordered = (given history j).map Prod.fst := by
      rw [Partition.packets, hbegin, hend, startOf_succ, Nat.add_sub_cancel_left, hordered,
        ← inBucket_partitionOf h.tracks j]
      exact hslice
    rw [Partition.work, hpackets, loadOf, List.map_map]
    refine congrArg List.sum (List.map_congr_left fun entry hentry => ?_)
    exact (h.packetWork_eq (List.mem_filter.mp hentry).1).symm
  refine ⟨hlength, fun i p hget => (hat i p hget).2.1, fun p hp => ?_, fun p hget => ?_,
    fun i p q hp hq => ?_, fun p hget => ?_, ?_, fun hsat p hp q hq => ?_⟩
  · obtain ⟨j, hget⟩ := hmem p hp
    obtain ⟨hj, -, hbegin, hend⟩ := hat j p hget
    have := h.size_pos hj
    rw [UInt32.lt_iff_toNat_lt, hbegin, hend, startOf_succ]
    omega
  · exact UInt32.toNat_inj.mp (hat 0 p hget).2.2.1
  · refine UInt32.toNat_inj.mp ?_
    rw [(hat (i + 1) q hq).2.2.1, (hat i p hp).2.2.2]
  · refine UInt32.toNat_inj.mp ?_
    rw [(hat _ p hget).2.2.2, Nat.sub_add_cancel h.partitions_pos, h.total]
  · rw [← map_toNat_allPackets (UInt32.toNat_lt _), hordered]
    have hperm := byBucket_perm (partitionOf assigned) fun packet hmem =>
      partitionOf_lt h.tracks hmem
    exact (hperm.trans h.packets).map _
  · obtain ⟨i, hi⟩ := hmem p hp
    obtain ⟨j, hj⟩ := hmem q hq
    rw [hload i p hi, hload j q hj]
    refine h.tracks.run.balanced (fun k hk => ?_) (fun entry hmem => h.packetWork_le hmem)
      (hat i p hi).1 (hat j q hj).1
    obtain ⟨r, hr, -⟩ := hbuilt k hk
    have := hsat r (List.mem_of_getElem? hr)
    rw [hload k r hr] at this
    show _ ≤ 2 ^ 64 - 1
    omega

end FullRun

/-- **A weighted schedule that is admitted compiles to a partition of the packets**, in ranges of
nearly equal work, as long as it has at most 2^31 partitions. -/
theorem compileWeighted_partitions (workspace : Workspace) (request : ScheduleCompileRequest)
    (hok : (projectSchedule request).ok = true)
    (hadmitted : Admitted workspace request (projectSchedule request))
    (hsmall : (projectSchedule request).partitionCount.toNat ≤ 2 ^ 31) (fuel : Nat)
    (hfuel : (projectSchedule request).partitionCount.toNat ≤ fuel) :
    ∃ build after, compileWeightedNoGrowthSchedule fuel workspace request
        (projectSchedule request) = Except.ok (build, after) ∧ build.ok = true ∧
      ScheduleSpec workspace request (projectSchedule request).partitionCount.toNat
        after.orderedPacketIndices.items after.schedule.partitions.items := by
  obtain ⟨-, hpos, hle⟩ := projectSchedule_bounds hok
  generalize projectSchedule request = projection at *
  have hn : request.packetCount.toNat < 2 ^ 32 := UInt32.toNat_lt _
  have hne : request.packetCount ≠ 0 := fun h0 => by
    rw [h0] at hle
    exact absurd hpos (Nat.not_lt.mpr hle)
  suffices hends : Ends (compileWeightedNoGrowthSchedule fuel workspace request projection)
      (fun r => r.1.ok = true ∧ ScheduleSpec workspace request projection.partitionCount.toNat
        r.2.orderedPacketIndices.items r.2.schedule.partitions.items) (fun _ => False) by
    obtain ⟨⟨build, after⟩, hrun, hgood⟩ := hends.returns
    exact ⟨build, after, hrun, hgood⟩
  rw [compileWeightedNoGrowthSchedule]
  refine Ends.require_bind (fun h => h hadmitted.hints) fun _ => ?_
  refine Ends.require_bind (fun h => h hadmitted.units) fun _ => ?_
  refine Ends.require_bind (fun h => h hadmitted.source) fun _ => ?_
  refine Ends.require_bind (fun h => h hadmitted.capacity) fun _ => ?_
  refine Ends.bind (ends_materialize hne hadmitted.source (Vec.resize_length _ _ _)
    fun hown => resize_same _ _ hown) ?_
  rintro r ⟨units, rfl, hunits, hvalues⟩
  have hassign : Ends (assignStage fuel (prepareWeightedNoGrowthBuffers workspace request projection)
      request units) (fun r => r.1.Perm (allPackets request.packetCount.toNat) ∧
        r.2.1.length = request.packetCount.toNat ∧
        Given units projection.partitionCount.toNat projection.partitionCount.toNat r.1 r.2.2)
      (fun _ => False) := by
    rw [assignStage]
    refine Ends.bind (ends_buildWeightedPacketOrder hunits hadmitted.hints
      (Vec.resize_length _ _ _) (Vec.resize_length _ _ _) (Vec.resize_length _ _ _)) ?_
    rintro order ⟨hfull, -⟩
    refine Ends.bind (ends_assignWeightedPacketPartitions (by rw [hunits]; exact hfull.ordered)
      (by omega) hpos hsmall hfuel (by rw [hunits]; exact hfull.buckets) (Vec.resize_length _ _ _)
      (Vec.resize_length _ _ _) (Vec.resize_length _ _ _)) ?_
    intro assigned hgiven
    exact ends_pure ⟨hfull.ordered, hfull.scratch, hgiven⟩
  refine Ends.bind hassign ?_
  rintro ⟨ordered, scratch, assigned⟩ ⟨hall, hscratch, hheap, history, rfl, htracks⟩
  refine Ends.bind (ends_scatterWeightedPacketOrder htracks rfl
    (hall.length_eq.trans (length_allPackets _)) hunits
    (fun packet hmem => (mem_allPackets hn).mp (hall.mem_iff.mp hmem)) hscratch
    (Vec.resize_length _ _ _) hheap) ?_
  rintro ⟨covered, ranges⟩ ⟨hcovered, hordered, hoffsets, hstarts⟩
  refine Ends.require_bind (fun h => h hcovered) fun _ => ?_
  have hrun : FullRun workspace request units projection.partitionCount.toNat history assigned :=
    ⟨htracks, hvalues, hall, hle, hpos⟩
  have hcount : ∀ j, j < projection.partitionCount.toNat → wordAt assigned.counts j =
      partitionSize assigned (history.map Prod.fst) j := by
    intro j hj
    rw [htracks.count j hj, partitionSize, inBucket_partitionOf htracks, List.length_map]
  refine Ends.bind (ends_buildWeightedSchedulePartitions
    (partitionSize assigned (history.map Prod.fst)) htracks.counts_length hoffsets
    (Vec.resize_length _ _ _) hcount hstarts (fun j hj => hrun.size_pos hj) hrun.total) ?_
  rintro r ⟨maxPackets, built, rfl, hlength, hbuilt⟩
  exact ends_pure ⟨rfl, hrun.scheduleSpec hordered hlength hbuilt⟩

end RunD
