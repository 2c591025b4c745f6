/-
The heap of partitions beyond 2^31 places.

With 2^32 - 1 partitions only the place 2^31 - 1 has no child in 32 bits: the
children of the places behind it wrap around to the front.  The partition of
the first packet can come to rest only there.  The partition of the second
packet then meets a child without load at every other place and never comes to
rest, so the loop does not end.
-/
import RunD.WeightedPartition

namespace RunD

/-- The only place of the largest heap whose child lies outside it. -/
def restPlace : Nat := 2 ^ 31 - 1

/-- The load of the partition at a place. -/
def placeLoad (loads : List UInt64) (heap : List UInt32) (place : Nat) : Nat :=
  (loads.getD (wordAt heap place) 0).toNat

variable {n : Nat}

/-- The loop is at a place that has a load, and no other place but possibly `restPlace` has. -/
structure Sinking (n : Nat) (loads : List UInt64) (heap : List UInt32) (root : Nat) : Prop where
  most : n = 2 ^ 32 - 1
  arrays : HeapArrays n loads heap
  root_lt : root < n
  heavy : 1 ≤ placeLoad loads heap root
  light : ∀ place, place < n → place ≠ root → place ≠ restPlace →
    placeLoad loads heap place = 0

theorem placeLoad_swapAt {loads : List UInt64} {heap : List UInt32} {i j : Nat}
    (hi : i < heap.length) (hj : j < heap.length) (k : Nat) :
    placeLoad loads (swapAt heap i j) k =
      if k = j then placeLoad loads heap i
      else if k = i then placeLoad loads heap j else placeLoad loads heap k := by
  rw [placeLoad, wordAt_swapAt hi hj]
  by_cases h1 : k = j
  · rw [if_pos h1, if_pos h1]
    rfl
  · by_cases h2 : k = i
    · rw [if_neg h1, if_pos h2, if_neg h1, if_pos h2]
      rfl
    · rw [if_neg h1, if_neg h2, if_neg h1, if_neg h2]
      rfl

/-- Away from `restPlace` both children of a place are in the heap, and the left one is not the
place itself. -/
theorem wrapped_child {root : UInt32} (hn : n = 2 ^ 32 - 1) (hroot : root.toNat < n)
    (hrest : root.toNat ≠ restPlace) :
    (root * 2 + 1).toNat + 1 < n ∧ (root * 2 + 1).toNat ≠ root.toNat ∧
      ((root * 2 + 1).toNat = restPlace → (root * 2 + 1).toNat + 1 ≠ root.toNat) := by
  rw [UInt32.toNat_add, UInt32.toNat_mul]
  show (root.toNat * 2 % 2 ^ 32 + 1) % 2 ^ 32 + 1 < n ∧
    (root.toNat * 2 % 2 ^ 32 + 1) % 2 ^ 32 ≠ root.toNat ∧
    ((root.toNat * 2 % 2 ^ 32 + 1) % 2 ^ 32 = 2 ^ 31 - 1 →
      (root.toNat * 2 % 2 ^ 32 + 1) % 2 ^ 32 + 1 ≠ root.toNat)
  rw [restPlace] at hrest
  omega

/-- **A turn of the loop away from `restPlace` never ends it**: the place is exchanged with a
child without load. -/
theorem Sinking.turn {loads : List UInt64} {heap : List UInt32} {size root : UInt32}
    (h : Sinking n loads heap root.toNat) (hsize : size.toNat = n)
    (hrest : root.toNat ≠ restPlace) (fuel : Nat) :
    ∃ child : UInt32, siftDownPartitionLoadHeap loads size (fuel + 1) root heap =
        siftDownPartitionLoadHeap loads size fuel child (swapAt heap root.toNat child.toNat) ∧
      Sinking n loads (swapAt heap root.toNat child.toNat) child.toNat ∧
      (1 ≤ placeLoad loads heap restPlace → child.toNat ≠ restPlace ∧
        1 ≤ placeLoad loads (swapAt heap root.toNat child.toNat) restPlace) := by
  obtain ⟨hright, hleft, hwrap⟩ := wrapped_child h.most h.root_lt hrest
  obtain ⟨child, hspec, hstep⟩ := sift_step _ h.arrays hsize h.root_lt (by omega) fuel
  -- one of the two children has no load, so the smaller of them has none
  have hzero : placeLoad loads heap child.toNat = 0 := by
    by_cases hmid : (root * 2 + 1).toNat = restPlace
    · have hlight := h.light _ hright (hwrap hmid) (by omega)
      have hle := load_le_of_loadKey_le (hspec.le_right hright)
      rw [placeLoad] at hlight ⊢
      omega
    · have hlight := h.light _ (by omega) hleft hmid
      have hle := load_le_of_loadKey_le hspec.le_left
      rw [placeLoad] at hlight ⊢
      omega
  have hheavy := h.heavy
  have hless : placeKey loads heap child.toNat < placeKey loads heap root.toNat := by
    refine loadKey_lt.mpr (Or.inl ?_)
    rw [placeLoad] at hzero hheavy
    omega
  have hne : child.toNat ≠ root.toNat := by
    intro heq
    rw [heq] at hzero
    omega
  have hswap : ∀ k, placeLoad loads (swapAt heap root.toNat child.toNat) k = _ :=
    placeLoad_swapAt (h.arrays.length ▸ h.root_lt) (h.arrays.length ▸ hspec.lt)
  refine ⟨child, by rw [hstep, if_pos hless], ⟨h.most, h.arrays.swap h.root_lt hspec.lt,
    hspec.lt, ?_, ?_⟩, fun hblocked => ?_⟩
  · rw [hswap, if_pos rfl]
    exact hheavy
  · intro place hplace hchild hmid
    rw [hswap, if_neg hchild]
    by_cases hroot : place = root.toNat
    · rw [if_pos hroot]
      exact hzero
    · rw [if_neg hroot]
      exact h.light place hplace hroot hmid
  · have hchild : child.toNat ≠ restPlace := by
      intro heq
      rw [heq] at hzero
      omega
    refine ⟨hchild, ?_⟩
    rw [hswap, if_neg (Ne.symm hchild), if_neg (Ne.symm hrest)]
    exact hblocked

/-- With a load at `restPlace` the loop runs for ever. -/
theorem Sinking.never {loads : List UInt64} {size : UInt32} (hsize : size.toNat = n)
    (fuel : Nat) (root : UInt32) (heap : List UInt32) (h : Sinking n loads heap root.toNat)
    (hrest : root.toNat ≠ restPlace) (hblocked : 1 ≤ placeLoad loads heap restPlace) :
    siftDownPartitionLoadHeap loads size fuel root heap = leave .stillRunning := by
  induction fuel generalizing root heap with
  | zero => rfl
  | succ fuel ih =>
      obtain ⟨child, hstep, hsinking, hnext⟩ := h.turn hsize hrest fuel
      obtain ⟨hchild, hstill⟩ := hnext hblocked
      rw [hstep]
      exact ih child _ hsinking hchild hstill

/-- If the loop ends, the load has come to rest at `restPlace`. -/
theorem Sinking.rests {loads : List UInt64} {size : UInt32} (hsize : size.toNat = n)
    (fuel : Nat) (root : UInt32) (heap : List UInt32) (h : Sinking n loads heap root.toNat) :
    Ends (siftDownPartitionLoadHeap loads size fuel root heap)
      (fun heap' => Sinking n loads heap' restPlace) (fun exit => exit = .stillRunning) := by
  induction fuel generalizing root heap with
  | zero => exact ends_leave rfl
  | succ fuel ih =>
      by_cases hrest : root.toNat = restPlace
      · have hleft := toNat_child root (by rw [hrest, restPlace]; omega)
        have hmost := h.most
        rw [sift_leaf (by rw [hsize, hleft, hrest, restPlace]; omega)]
        exact ends_pure (hrest ▸ h)
      · obtain ⟨child, hstep, hsinking, -⟩ := h.turn hsize hrest fuel
        rw [hstep]
        exact ih child _ hsinking

/-! ### Two packets -/

/-- One turn of the assignment: the packet goes to the partition at the top, whose load sinks. -/
theorem assignFromHeap_eq (fuel : Nat) (resolved : List UInt64) (packet : UInt32)
    (state : Assignment) (hn : n = 2 ^ 32 - 1) (harrays : HeapArrays n state.loads state.heap)
    (hindices : packet.toNat < state.partitionIndices.length)
    (hwork : packet.toNat < resolved.length) (hcounts : state.counts.length = n) :
    ∃ partition : UInt32, wordAt state.heap 0 = partition.toNat ∧
      partition.toNat < state.loads.length ∧
      assignFromHeap fuel resolved packet state =
        (siftDownPartitionLoadHeap (state.give resolved packet partition).loads
          (UInt32.ofNat n) fuel 0 state.heap >>= fun heap =>
          pure { state.give resolved packet partition with heap := heap }) := by
  obtain ⟨partition, hget, hlt, htop⟩ := harrays.read (show 0 < n by omega)
  have hloads := harrays.loads_length
  refine ⟨partition, htop, hlt, ?_⟩
  rw [assignFromHeap, fetch_of_lt hget, ok_bind,
    givePacket_eq hindices hwork (by omega) hlt, ok_bind]
  show (siftDownPartitionLoadHeap _ (UInt32.ofNat state.heap.length) fuel 0 state.heap >>= _) = _
  rw [harrays.length]

/-- Giving the top partition a packet starts its load sinking. -/
theorem sinking_give (resolved : List UInt64) (packet : UInt32) (state : Assignment)
    {partition : UInt32}
    (hn : n = 2 ^ 32 - 1) (harrays : HeapArrays n state.loads state.heap)
    (hlight : ∀ place, place < n → place ≠ restPlace →
      placeLoad state.loads state.heap place = 0)
    (htop : wordAt state.heap 0 = partition.toNat) (hlt : partition.toNat < state.loads.length)
    (hwork : 1 ≤ packetWork resolved packet) :
    Sinking n (state.give resolved packet partition).loads state.heap 0 ∧
      placeLoad (state.give resolved packet partition).loads state.heap restPlace =
        placeLoad state.loads state.heap restPlace := by
  have hpos : 0 < n := by omega
  have hother : ∀ place, place < n → place ≠ 0 →
      placeLoad (state.give resolved packet partition).loads state.heap place =
        placeLoad state.loads state.heap place := by
    intro place hplace hne
    have hword : wordAt state.heap place ≠ partition.toNat := fun heq =>
      hne (harrays.wordAt_inj hplace hpos (heq.trans htop.symm))
    show ((state.loads.set _ _).getD _ 0).toNat = _
    rw [getD_set hlt, if_neg hword]
    rfl
  refine ⟨⟨hn, ⟨harrays.places, ?_, harrays.size_lt⟩, hpos, ?_, ?_⟩, ?_⟩
  · show (state.loads.set _ _).length = _
    rw [List.length_set]
    exact harrays.loads_length
  · show 1 ≤ ((state.loads.set _ _).getD (wordAt state.heap 0) 0).toNat
    rw [getD_set hlt, if_pos htop, toNat_scalarSatAdd]
    rw [packetWork] at hwork
    rw [maxLoad]
    omega
  · intro place hplace hne hmid
    rw [hother place hplace hne]
    exact hlight place hplace hmid
  · refine hother restPlace ?_ ?_
    · rw [restPlace]
      omega
    · rw [restPlace]
      omega

/-- **With 2^32 - 1 partitions the second packet is never assigned.** -/
theorem assignHeap_never {fuel : Nat} {resolved : List UInt64} {first second : UInt32}
    {rest : List UInt32} {state : Assignment} (hn : n = 2 ^ 32 - 1) (hheap : state.heap.length = n)
    (hloads : state.loads = List.replicate n 0)
    (hcounts : state.counts.length = n)
    (hindices : state.partitionIndices.length = resolved.length)
    (hpackets : first.toNat < resolved.length ∧ second.toNat < resolved.length)
    (hwork : 1 ≤ packetWork resolved first ∧ 1 ≤ packetWork resolved second) :
    Ends (assignWeightedPacketPartitionsHeap fuel resolved (first :: second :: rest) state)
      (fun _ => False) (fun exit => exit = .stillRunning) := by
  have hword : n < 2 ^ 32 := by omega
  have hsize : (UInt32.ofNat n).toNat = n := by
    rw [UInt32.toNat_ofNat']
    exact Nat.mod_eq_of_lt hword
  have hlength : state.loads.length = n := by rw [hloads, List.length_replicate]
  have hinit := ends_initialize (E := fun exit => exit = .stillRunning) fuel hword hheap
    fun _ => rfl
  rw [← hloads] at hinit
  rw [assignWeightedPacketPartitionsHeap]
  refine Ends.bind hinit ?_
  rintro heap rfl
  have hstart : HeapArrays n state.loads (allPackets n) :=
    heapArrays_allPackets hword _ hlength
  have hempty : ∀ place, place < n → place ≠ restPlace →
      placeLoad state.loads (allPackets n) place = 0 := by
    intro place hplace _
    rw [placeLoad, wordAt_allPackets hword hplace, hloads, List.getD_eq_getElem?_getD,
      List.getElem?_replicate, if_pos hplace]
    rfl
  -- the first packet's load sinks, and rests if it ever does
  obtain ⟨p, htop, hlt, hturn⟩ := assignFromHeap_eq fuel resolved first
    { state with heap := allPackets n } hn hstart
    (by rw [hindices]; exact hpackets.1) hpackets.1 hcounts
  obtain ⟨hsinking, -⟩ := sinking_give resolved first
    { state with heap := allPackets n } hn hstart hempty htop hlt hwork.1
  rw [forEach, hturn]
  refine Ends.bind (Q := fun after : Assignment => Sinking n after.loads after.heap restPlace ∧
    after.counts.length = n ∧ after.partitionIndices.length = resolved.length) ?_ ?_
  · refine Ends.bind (hsinking.rests hsize fuel 0 _) fun heap hrested => ?_
    refine ends_pure ⟨hrested, ?_, ?_⟩
    · show (state.counts.set _ _).length = n
      rw [List.length_set, hcounts]
    · show (state.partitionIndices.set _ _).length = _
      rw [List.length_set, hindices]
  rintro after ⟨hrested, hcounts', hindices'⟩
  -- the second packet's load finds that place taken
  obtain ⟨q, htop', hlt', hturn'⟩ := assignFromHeap_eq fuel resolved
    second after hn hrested.arrays (by rw [hindices']; exact hpackets.2) hpackets.2 hcounts'
  obtain ⟨hsinking', hblocked⟩ := sinking_give resolved second after hn
    hrested.arrays (fun place hplace hmid => hrested.light place hplace hmid hmid) htop' hlt'
    hwork.2
  rw [forEach, hturn', hsinking'.never hsize fuel 0 _ (by
    rw [restPlace]
    show 0 ≠ _
    omega) (by
    rw [hblocked]
    exact hrested.heavy)]
  exact rfl

/-! ### The largest request -/

/-- A request of `n` packets of unit work for as many workers. -/
def unitRequest (n : UInt32) : ScheduleCompileRequest :=
  { packetCount := n, executionWidth := n, placement := .weightedStable,
    packetWorkUnits := .external (List.replicate n.toNat 1) }

/-- An empty vector with room for `n` items. -/
def roomFor {α : Type} (n : Nat) : Vec α := ⟨[], n, Nat.zero_le _⟩

/-- A workspace with room for `n` packets and `n` partitions. -/
def unitWorkspace (n : Nat) : Workspace :=
  { schedule := { partitions := roomFor n }, packetWorkUnits := roomFor n,
    orderedPacketIndices := roomFor n, packetPartitionIndices := roomFor n,
    orderedPacketScratch := roomFor n, partitionLoads := roomFor n, partitionCounts := roomFor n,
    partitionOffsets := roomFor n, partitionWriteOffsets := roomFor n }

theorem projectSchedule_unitRequest {n : UInt32} (hn : n ≠ 0) :
    (projectSchedule (unitRequest n)).ok = true ∧
      (projectSchedule (unitRequest n)).packetCount = n ∧
      (projectSchedule (unitRequest n)).partitionCount = n := by
  have halign : requestedAlignment (unitRequest n) = 1 := by
    show max 1 (max (max 1 1) 1) = (1 : UInt32)
    decide
  have hno : canUseAlignedPartitions (unitRequest n) = false := by
    have hone : decide ((1 : UInt32) > 1) = false := by decide
    rw [canUseAlignedPartitions]
    simp only [halign, hone, Bool.false_and]
  have hcount : resolvePartitionCount n n = n := by
    have hpos : 0 < n.toNat := Nat.pos_of_ne_zero fun h0 => hn (UInt32.toNat_inj.mp h0)
    refine UInt32.toNat_inj.mp ?_
    rw [resolvePartitionCount, clampKernelWidth, toNat_max, toNat_min, toNat_max]
    show max 1 (min n.toNat (max 1 n.toNat)) = n.toNat
    omega
  have hunits : resolvePartitionUnits (unitRequest n).packetCount 1 = n := if_pos (by decide)
  have hproject : projectPartitions (unitRequest n) =
      { ok := true, reason := "pass", packetCount := n, executionWidth := clampKernelWidth n,
        partitionCount := n, alignmentPackets := 1,
        workerSlotCount := min (clampKernelWidth n) n, foldSlotCount := n,
        usefulWidth := min (clampKernelWidth n) n } := by
    rw [projectPartitions, if_neg (show ¬ (unitRequest n).packetCount = 0 from hn),
      if_neg (show ¬ (unitRequest n).executionWidth = 0 from hn), hno]
    simp only [Bool.false_eq_true, if_false]
    rw [hunits, if_neg hn]
    show PartitionProjection.mk true "pass" n (clampKernelWidth n) .uniform
      (resolvePartitionCount n n) 1 (min (clampKernelWidth n) (resolvePartitionCount n n))
      (resolvePartitionCount n n) (min (clampKernelWidth n) (resolvePartitionCount n n)) = _
    rw [hcount]
  rw [projectSchedule, hproject]
  exact ⟨rfl, rfl, rfl⟩

/-- The request is admitted into the workspace. -/
theorem admitted_unitRequest {n : UInt32} (hn : n ≠ 0) :
    Admitted (unitWorkspace n.toNat) (unitRequest n) (projectSchedule (unitRequest n)) := by
  obtain ⟨-, hpackets, hpartitions⟩ := projectSchedule_unitRequest hn
  have hsize : (unitRequest n).packetWorkUnits.size = n.toNat := List.length_replicate
  have hexact : hasExactWorkUnits (unitRequest n) = true := beq_iff_eq.mpr hsize
  refine ⟨rfl, ?_, ?_, ?_⟩
  · rw [hasWorkUnits, hexact, Bool.true_or]
  · have hkind : classifyWeightedWorkSource (unitWorkspace n.toNat) (unitRequest n) =
        .externalWorkUnits := by
      have hlong : ¬ ((unitRequest n).packetWorkUnits.size ≠ 0 ∧
          (unitRequest n).packetCount.toNat < (unitRequest n).packetWorkUnits.size) := by
        rintro ⟨-, hlt⟩
        rw [hsize] at hlt
        exact Nat.lt_irrefl _ hlt
      rw [classifyWeightedWorkSource, if_neg (show ¬ (unitRequest n).packetCount = 0 from hn),
        if_neg hlong, if_neg (by simp [overlapsOwnedCapacity, unitRequest]),
        if_neg (by simp [overlapsOwnedCapacity, unitRequest]), if_pos hexact]
    rw [hkind]
    exact fun h => WeightedWorkSourceKind.noConfusion h
  · rw [hasWeightedNoGrowthCapacity, hpackets, hpartitions]
    simp [unitWorkspace, roomFor]

/-- Three packets for three workers: every worker gets one of them. -/
theorem compileWeighted_partitions_three :
    ∃ build after, compileWeightedNoGrowthSchedule 3 (unitWorkspace 3) (unitRequest 3)
        (projectSchedule (unitRequest 3)) = Except.ok (build, after) ∧ build.ok = true ∧
      ScheduleSpec (unitWorkspace 3) (unitRequest 3)
        (projectSchedule (unitRequest 3)).partitionCount.toNat
        after.orderedPacketIndices.items after.schedule.partitions.items :=
  compileWeighted_partitions (unitWorkspace 3) (unitRequest 3)
    (projectSchedule_unitRequest (by decide)).1 (admitted_unitRequest (n := 3) (by decide))
    (by rw [(projectSchedule_unitRequest (n := 3) (by decide)).2.2]; decide) 3
    (by rw [(projectSchedule_unitRequest (n := 3) (by decide)).2.2]; decide)

/-- **A request with 2^32 - 1 partitions never compiles**: whatever the fuel, it is used up. -/
theorem compileWeighted_never {request : ScheduleCompileRequest} {workspace : Workspace}
    (hok : (projectSchedule request).ok = true)
    (hadmitted : Admitted workspace request (projectSchedule request))
    (hmost : (projectSchedule request).partitionCount.toNat = 2 ^ 32 - 1) (fuel : Nat) :
    compileWeightedNoGrowthSchedule fuel workspace request (projectSchedule request) =
      leave .stillRunning := by
  obtain ⟨-, hpos, hle⟩ := projectSchedule_bounds hok
  generalize projectSchedule request = projection at *
  have hn : request.packetCount.toNat < 2 ^ 32 := UInt32.toNat_lt _
  have hne : request.packetCount ≠ 0 := fun h0 => by
    rw [h0] at hle
    exact absurd hpos (Nat.not_lt.mpr hle)
  suffices hends : Ends (compileWeightedNoGrowthSchedule fuel workspace request projection)
      (fun _ => False) (fun exit => exit = .stillRunning) by
    rcases hrun : compileWeightedNoGrowthSchedule fuel workspace request projection with
      (exit | -) | result
    · rw [hrun] at hends
      rw [show exit = .stillRunning from hends]
      rfl
    · rw [hrun] at hends
      exact absurd hends id
    · rw [hrun] at hends
      exact absurd hends id
  rw [compileWeightedNoGrowthSchedule]
  refine Ends.require_bind (fun h => absurd hadmitted.hints h) fun _ => ?_
  refine Ends.require_bind (fun h => absurd hadmitted.units h) fun _ => ?_
  refine Ends.require_bind (fun h => absurd hadmitted.source h) fun _ => ?_
  refine Ends.require_bind (fun h => absurd hadmitted.capacity h) fun _ => ?_
  refine Ends.bind (ends_materialize hne hadmitted.source (Vec.resize_length _ _ _)
    fun hown => resize_same _ _ hown) ?_
  rintro r ⟨units, rfl, hunits, hvalues⟩
  refine Ends.bind (Q := fun _ => False) ?_ fun _ h => absurd h id
  rw [assignStage]
  refine Ends.bind (ends_buildWeightedPacketOrder hunits hadmitted.hints
    (Vec.resize_length _ _ _) (Vec.resize_length _ _ _) (Vec.resize_length _ _ _)) ?_
  rintro order ⟨hfull, -⟩
  refine Ends.bind (Q := fun _ => False) ?_ fun _ h => absurd h id
  -- there are at least two packets
  have hpacket : ∀ packet ∈ order.ordered, packet.toNat < units.length ∧
      1 ≤ packetWork units packet := by
    intro packet hmem
    have hlt := (mem_allPackets hn).mp (hfull.ordered.mem_iff.mp hmem)
    refine ⟨by rw [hunits]; exact hlt, ?_⟩
    rw [packetWork, hvalues _ hlt]
    exact packetWorkUnitsAt_pos _ _ _
  have hlen := hfull.length
  rcases hordered : order.ordered with - | ⟨first, - | ⟨second, rest⟩⟩
  · rw [hordered, List.length_nil] at hlen
    omega
  · rw [hordered, List.length_singleton] at hlen
    omega
  have hfirst := hpacket first (by rw [hordered]; simp)
  have hsecond := hpacket second (by rw [hordered]; simp)
  have hloads : (prepareWeightedNoGrowthBuffers workspace request
      projection).partitionLoads.items.length = projection.partitionCount.toNat :=
    Vec.resize_length _ _ _
  have hcounts : (prepareWeightedNoGrowthBuffers workspace request
      projection).partitionCounts.items.length = projection.partitionCount.toNat :=
    Vec.resize_length _ _ _
  have hheap : (prepareWeightedNoGrowthBuffers workspace request
      projection).partitionWriteOffsets.items.length = projection.partitionCount.toNat :=
    Vec.resize_length _ _ _
  rw [assignWeightedPacketPartitions]
  simp only [List.length_replicate, hloads, hcounts]
  rw [if_neg (by omega), if_neg (by omega)]
  exact assignHeap_never hmost hheap rfl List.length_replicate
    (by rw [hunits]; exact hfull.buckets) ⟨hfirst.1, hsecond.1⟩ ⟨hfirst.2, hsecond.2⟩

/-- **Unit packets for 2^32 - 1 workers are admitted and never scheduled.** -/
theorem unitRequest_never_compiles :
    (projectSchedule (unitRequest 4294967295)).ok = true ∧
      Admitted (unitWorkspace 4294967295) (unitRequest 4294967295)
        (projectSchedule (unitRequest 4294967295)) ∧
      ∀ fuel, compileWeightedNoGrowthSchedule fuel (unitWorkspace 4294967295)
        (unitRequest 4294967295) (projectSchedule (unitRequest 4294967295)) =
          leave .stillRunning := by
  obtain ⟨hok, -, hpartitions⟩ := projectSchedule_unitRequest (n := 4294967295) (by decide)
  have hadmitted := admitted_unitRequest (n := 4294967295) (by decide)
  refine ⟨hok, hadmitted, fun fuel => compileWeighted_never hok hadmitted ?_ fuel⟩
  rw [hpartitions]
  rfl

end RunD
