/-
The assignment stage is list scheduling.

Both forms of the stage, the heap and the scan over eight partitions, give each
packet to the partition that has the least load at that moment, the first of
these where several have it (`assignEightPartitions_eq`, `ends_assignHeap`), so
that they come to the same arrays.  `Recounts` relates the arrays to the run of
list scheduling they stand for; one packet given to the least loaded partition
keeps it (`Recounts.give`), so a whole stage ends in the arrays of a run over all
its packets.
-/
import Mathlib.Data.List.MinMax
import RunD.WeightedHeap
import RunD.GreedyBalance

namespace RunD

variable {E : WeightedExit → Prop}

/-- The largest load a partition can show. -/
def maxLoad : Nat := 2 ^ 64 - 1

theorem toNat_scalarSatAdd (lhs rhs : UInt64) :
    (scalarSatAdd lhs rhs).toNat = min maxLoad (lhs.toNat + rhs.toNat) := by
  have hl := UInt64.toNat_lt lhs
  have hr := UInt64.toNat_lt rhs
  have hsub : ((0xFFFFFFFFFFFFFFFF : UInt64) - rhs).toNat = 2 ^ 64 - 1 - rhs.toNat := by
    rw [UInt64.toNat_sub_of_le _ _ (by
      rw [UInt64.le_iff_toNat_le]
      show rhs.toNat ≤ 2 ^ 64 - 1
      omega)]
    rfl
  rw [scalarSatAdd, maxLoad]
  by_cases h : lhs > 0xFFFFFFFFFFFFFFFF - rhs
  · rw [if_pos h]
    rw [gt_iff_lt, UInt64.lt_iff_toNat_lt, hsub] at h
    show 2 ^ 64 - 1 = _
    omega
  · rw [if_neg h]
    rw [gt_iff_lt, UInt64.lt_iff_toNat_lt, hsub] at h
    rw [UInt64.toNat_add, Nat.mod_eq_of_lt (by omega)]
    omega

/-! ### Arrays of a run -/

/-- The work of a packet. -/
def packetWork (resolved : List UInt64) (packet : UInt32) : Nat :=
  (resolved.getD packet.toNat 0).toNat

/-- The arrays of the assignment stage stand for a run of list scheduling. -/
structure Recounts (resolved : List UInt64) (partitions : Nat) (history : List (UInt32 × Nat))
    (state : Assignment) : Prop where
  run : GreedyRun (packetWork resolved) maxLoad partitions history
  indices_length : state.partitionIndices.length = resolved.length
  loads_length : state.loads.length = partitions
  counts_length : state.counts.length = partitions
  load : ∀ j, j < partitions →
    (state.loads.getD j 0).toNat = min maxLoad (loadOf (packetWork resolved) history j)
  count : ∀ j, j < partitions → wordAt state.counts j = (given history j).length
  index : ∀ packet p, (packet, p) ∈ history → wordAt state.partitionIndices packet.toNat = p

/-- The state after one packet was given to a partition. -/
def Assignment.give (resolved : List UInt64) (packet partition : UInt32) (state : Assignment) :
    Assignment :=
  { state with
    partitionIndices := state.partitionIndices.set packet.toNat partition
    counts := state.counts.set partition.toNat (state.counts.getD partition.toNat 0 + 1)
    loads := state.loads.set partition.toNat
      (scalarSatAdd (state.loads.getD partition.toNat 0) (resolved.getD packet.toNat 0)) }

theorem fetch_getD {α : Type} {xs : List α} {i : Nat} {d : α} (h : i < xs.length) :
    (fetch xs i : Scheduling α) = Except.ok (xs.getD i d) := by
  refine fetch_of_lt ?_
  rw [List.getD_eq_getElem?_getD, List.getElem?_eq_getElem h]
  rfl

theorem givePacket_eq {resolved : List UInt64} {packet partition : UInt32} {state : Assignment}
    (hindex : packet.toNat < state.partitionIndices.length) (hwork : packet.toNat < resolved.length)
    (hcount : partition.toNat < state.counts.length) (hload : partition.toNat < state.loads.length) :
    givePacket resolved packet partition state =
      Except.ok (state.give resolved packet partition) := by
  rw [givePacket, assign_of_lt hindex, ok_bind, fetch_getD hcount, ok_bind, assign_of_lt hcount,
    ok_bind, fetch_getD hload, ok_bind, fetch_getD hwork, ok_bind, assign_of_lt hload]
  rfl

theorem getD_set {xs : List UInt64} {i : Nat} (hi : i < xs.length) (x : UInt64) (j : Nat) :
    (xs.set i x).getD j 0 = if j = i then x else xs.getD j 0 := by
  by_cases hj : j = i
  · subst hj
    rw [if_pos rfl, List.getD_eq_getElem?_getD, List.getElem?_set_self hi, Option.getD_some]
  · rw [if_neg hj, List.getD_eq_getElem?_getD, List.getD_eq_getElem?_getD,
      List.getElem?_set_ne (Ne.symm hj)]

/-- **Giving a new packet to a least loaded partition continues the run.** -/
theorem Recounts.give {resolved : List UInt64} {partitions : Nat} {history : List (UInt32 × Nat)}
    {state : Assignment} (h : Recounts resolved partitions history state) {packet partition : UInt32}
    (hpacket : packet.toNat < resolved.length) (hpartition : partition.toNat < partitions)
    (hleast : ∀ j, j < partitions →
      (state.loads.getD partition.toNat 0).toNat ≤ (state.loads.getD j 0).toNat)
    (hnew : packet ∉ history.map Prod.fst) (hshort : history.length + 1 < 2 ^ 32) :
    Recounts resolved partitions (history ++ [(packet, partition.toNat)])
      (state.give resolved packet partition) := by
  have hcounts := h.counts_length
  have hloads := h.loads_length
  have hindices := h.indices_length
  refine ⟨?_, ?_, ?_, ?_, fun j hj => ?_, fun j hj => ?_, fun q p hmem => ?_⟩
  · refine GreedyRun.give history packet partition.toNat h.run hpartition fun j hj => ?_
    rw [← h.load _ hpartition, ← h.load j hj]
    exact hleast j hj
  · show (state.partitionIndices.set _ _).length = _
    rw [List.length_set, hindices]
  · show (state.loads.set _ _).length = _
    rw [List.length_set, hloads]
  · show (state.counts.set _ _).length = _
    rw [List.length_set, hcounts]
  · show ((state.loads.set _ _).getD j 0).toNat = _
    rw [getD_set (by omega), loadOf_concat]
    by_cases hjp : j = partition.toNat
    · rw [if_pos hjp, if_pos hjp.symm, toNat_scalarSatAdd, ← hjp, h.load j hj, packetWork]
      omega
    · rw [if_neg hjp, if_neg (Ne.symm hjp), h.load j hj]
  · show wordAt (state.counts.set _ _) j = _
    rw [wordAt_set _ (by omega), given_concat]
    by_cases hjp : j = partition.toNat
    · have hcount := h.count j hj
      have hle : (given history j).length ≤ history.length := List.length_filter_le _ _
      rw [wordAt, hjp] at hcount
      rw [if_pos hjp, if_pos hjp.symm, toNat_add_one (by rw [hcount, ← hjp]; omega), hcount,
        List.length_append, hjp]
      rfl
    · rw [if_neg hjp, if_neg (Ne.symm hjp), h.count j hj]
  · show wordAt (state.partitionIndices.set _ _) q.toNat = p
    rw [wordAt_set _ (by omega)]
    rcases List.mem_append.mp hmem with hold | hlast
    · have hne : q.toNat ≠ packet.toNat := by
        intro heq
        refine hnew (List.mem_map.mpr ⟨(q, p), hold, ?_⟩)
        exact UInt32.toNat_inj.mp heq
      rw [if_neg hne]
      exact h.index q p hold
    · obtain ⟨rfl, rfl⟩ := Prod.mk.injEq .. ▸ List.mem_singleton.mp hlast
      rw [if_pos rfl]

theorem tracks_start {resolved : List UInt64} {partitions : Nat} {state : Assignment}
    (hindices : state.partitionIndices.length = resolved.length)
    (hloads : state.loads = List.replicate partitions 0)
    (hcounts : state.counts = List.replicate partitions 0) :
    Recounts resolved partitions [] state := by
  refine ⟨GreedyRun.start, hindices, ?_, ?_, fun j hj => ?_, fun j hj => ?_, fun _ _ h => ?_⟩
  · rw [hloads, List.length_replicate]
  · rw [hcounts, List.length_replicate]
  · rw [hloads, List.getD_eq_getElem?_getD, List.getElem?_replicate, if_pos hj]
    rfl
  · have hzero := wordAt_replicate_zero [] hj
    rw [List.append_nil] at hzero
    rw [hcounts, hzero]
    rfl
  · exact absurd h (by simp)

/-- The heap is no part of what the arrays stand for. -/
theorem Recounts.withHeap {resolved : List UInt64} {partitions : Nat}
    {history : List (UInt32 × Nat)} {state : Assignment}
    (h : Recounts resolved partitions history state) (heap : List UInt32) :
    Recounts resolved partitions history { state with heap := heap } :=
  ⟨h.run, h.indices_length, h.loads_length, h.counts_length, h.load, h.count, h.index⟩

/-! ### Always the least loaded partition -/

/-- The partition with the least load, the first of these where several have it. -/
def leastLoaded (loads : List UInt64) : Nat :=
  ((List.range loads.length).argmin (loadKey loads)).getD 0

theorem leastLoaded_mem {loads : List UInt64} (hpos : 0 < loads.length) :
    leastLoaded loads ∈ (List.range loads.length).argmin (loadKey loads) := by
  rcases hfound : (List.range loads.length).argmin (loadKey loads) with - | found
  · rw [List.argmin_eq_none, List.range_eq_nil] at hfound
    omega
  · rw [leastLoaded, hfound]
    rfl

theorem leastLoaded_lt (loads : List UInt64) (hpos : 0 < loads.length) :
    leastLoaded loads < loads.length :=
  List.mem_range.mp (List.argmin_mem (leastLoaded_mem hpos))

theorem leastLoaded_le {loads : List UInt64} {j : Nat} (hj : j < loads.length) :
    loadKey loads (leastLoaded loads) ≤ loadKey loads j :=
  not_lt.mp (List.not_lt_of_mem_argmin (List.mem_range.mpr hj) (leastLoaded_mem (by omega)))

/-- A partition whose key is least is the one. -/
theorem leastLoaded_eq {loads : List UInt64} {partition : Nat} (hlt : partition < loads.length)
    (hleast : ∀ j, j < loads.length → loadKey loads partition ≤ loadKey loads j) :
    leastLoaded loads = partition := by
  have hkeys : loadKey loads (leastLoaded loads) = loadKey loads partition :=
    le_antisymm (leastLoaded_le hlt) (hleast _ (leastLoaded_lt _ (by omega)))
  -- the key of a partition names the partition
  exact congrArg (fun key : ℕ ×ₗ ℕ => (ofLex key).2) hkeys

/-- Give a packet to the partition that has the least load now. -/
def giveLeast (resolved : List UInt64) (state : Assignment) (packet : UInt32) : Assignment :=
  state.give resolved packet (UInt32.ofNat (leastLoaded state.loads))

/-- Give the packets one after the other, each to the partition with the least load then. -/
def giveAll (resolved : List UInt64) (packets : List UInt32) (state : Assignment) : Assignment :=
  packets.foldl (giveLeast resolved) state

section Given

variable {resolved : List UInt64} {packets : List UInt32} {packet : UInt32} {state : Assignment}

theorem giveAll_concat :
    giveAll resolved (packets ++ [packet]) state =
      giveLeast resolved (giveAll resolved packets state) packet := by
  simp [giveAll]

@[simp] theorem giveAll_indices_length :
    (giveAll resolved packets state).partitionIndices.length = state.partitionIndices.length := by
  induction packets using List.reverseRecOn with
  | nil => rfl
  | append_singleton packets packet ih =>
      rw [giveAll_concat, giveLeast, Assignment.give, List.length_set, ih]

@[simp] theorem giveAll_loads_length :
    (giveAll resolved packets state).loads.length = state.loads.length := by
  induction packets using List.reverseRecOn with
  | nil => rfl
  | append_singleton packets packet ih =>
      rw [giveAll_concat, giveLeast, Assignment.give, List.length_set, ih]

@[simp] theorem giveAll_counts_length :
    (giveAll resolved packets state).counts.length = state.counts.length := by
  induction packets using List.reverseRecOn with
  | nil => rfl
  | append_singleton packets packet ih =>
      rw [giveAll_concat, giveLeast, Assignment.give, List.length_set, ih]

@[simp] theorem giveAll_heap : (giveAll resolved packets state).heap = state.heap := by
  induction packets using List.reverseRecOn with
  | nil => rfl
  | append_singleton packets packet ih =>
      rw [giveAll_concat, giveLeast, Assignment.give, ih]

end Given

/-! ### The scan over eight partitions -/

/-- The scan finds the partition with the least load. -/
theorem leastOfEight_eq {loads : List UInt64} (hlen : loads.length = 8) :
    leastOfEight loads = Except.ok (UInt32.ofNat (leastLoaded loads)) := by
  suffices hends : Ends (leastOfEight loads) (fun p => p.toNat < 8 ∧
      ∀ j, j < 8 → loadKey loads p.toNat ≤ loadKey loads j) (fun _ => False) by
    obtain ⟨partition, hrun, hlt, hleast⟩ := hends.returns
    rw [hrun, leastLoaded_eq (by rwa [hlen]) (by rwa [hlen]), UInt32.ofNat_toNat]
  rw [leastOfEight, fetch_getD (d := 0) (by omega), ok_bind]
  -- after `i` turns the candidate is the least of the first `i + 1`
  refine Ends.bind (ends_forRange (fun i (least : UInt32 × UInt64) => least.1.toNat < i + 1 ∧
    least.2 = loads.getD least.1.toNat 0 ∧
    ∀ j, j < i + 1 → loadKey loads least.1.toNat ≤ loadKey loads j) ?_ ?_) ?_
  · refine ⟨Nat.zero_lt_one, rfl, fun j hj => ?_⟩
    obtain rfl : j = 0 := by omega
    exact le_refl _
  · rintro i ⟨candidate, best⟩ hi ⟨hlt, hbest, hle⟩
    rw [fetch_getD (d := 0) (by omega), ok_bind]
    refine ends_pure ?_
    have hnext : (UInt32.ofNat (i + 1)).toNat = i + 1 := by
      rw [UInt32.toNat_ofNat']
      exact Nat.mod_eq_of_lt (by omega)
    dsimp only at hlt hbest hle
    by_cases hless : loads.getD (i + 1) 0 < best
    · rw [if_pos hless]
      dsimp only
      rw [hnext]
      refine ⟨by omega, rfl, fun j hj => ?_⟩
      rw [hbest, UInt64.lt_iff_toNat_lt] at hless
      rcases Nat.lt_or_ge j (i + 1) with hold | hnew
      · exact le_trans (le_of_lt (loadKey_lt.mpr (Or.inl hless))) (hle j hold)
      · obtain rfl : j = i + 1 := by omega
        exact le_refl _
    · rw [if_neg hless]
      refine ⟨Nat.lt_succ_of_lt hlt, hbest, fun j hj => ?_⟩
      rw [hbest, UInt64.lt_iff_toNat_lt] at hless
      rcases Nat.lt_or_ge j (i + 1) with hold | hnew
      · exact hle j hold
      · -- of two equal loads the earlier partition keeps its place
        obtain rfl : j = i + 1 := by omega
        refine le_of_lt (loadKey_lt.mpr ?_)
        dsimp only
        omega
  · rintro ⟨candidate, best⟩ ⟨hlt, -, hle⟩
    exact ends_pure ⟨hlt, hle⟩

/-! ### Whole stages -/

section Stage

variable {resolved : List UInt64} {ordered : List UInt32} {state : Assignment} {partitions : Nat}

/-- The number of the least loaded partition is a word. -/
theorem toNat_leastLoaded (loads : List UInt64) (hpos : 0 < loads.length)
    (hword : loads.length < 2 ^ 32) :
    (UInt32.ofNat (leastLoaded loads)).toNat = leastLoaded loads := by
  have hlt := leastLoaded_lt loads hpos
  rw [UInt32.toNat_ofNat']
  exact Nat.mod_eq_of_lt (by omega)

/-- **The scan over eight partitions gives every packet to the least loaded one.** -/
theorem assignEightPartitions_eq (hpackets : ∀ packet ∈ ordered, packet.toNat < resolved.length)
    (hindices : state.partitionIndices.length = resolved.length) (hloads : state.loads.length = 8)
    (hcounts : state.counts.length = 8) :
    assignEightPartitions resolved ordered state = Except.ok (giveAll resolved ordered state) := by
  suffices hends : Ends (assignEightPartitions resolved ordered state)
      (fun now => now = giveAll resolved ordered state) (fun _ => False) by
    obtain ⟨now, hrun, rfl⟩ := hends.returns
    exact hrun
  refine ends_forEach (fun seen now => now = giveAll resolved seen state) [] rfl ?_
  rintro seen packet rest now hsplit rfl
  have hpacket := hpackets packet (by rw [show ordered = _ from hsplit]; simp)
  have hlen : (giveAll resolved seen state).loads.length = 8 := by simpa using hloads
  have hleast : leastLoaded (giveAll resolved seen state).loads < 8 :=
    hlen ▸ leastLoaded_lt _ (by omega)
  have hword := toNat_leastLoaded (giveAll resolved seen state).loads (by omega)
    (by omega)
  rw [leastOfEight_eq hlen, ok_bind, givePacket_eq]
  · exact giveAll_concat.symm
  · rw [giveAll_indices_length, hindices]
    exact hpacket
  · exact hpacket
  · rw [hword, giveAll_counts_length]
    omega
  · rw [hword]
    omega

/-- The partition at the top of a heap has the least load. -/
theorem leastLoaded_at_top {loads : List UInt64} {heap : List UInt32} {n : Nat}
    (h : HeapArrays n loads heap) (hheap : IsHeap (placeKey loads heap) n) (hpos : 0 < n) :
    leastLoaded loads = wordAt heap 0 := by
  apply leastLoaded_eq
  · rw [h.loads_length]
    exact h.wordAt_lt hpos
  · intro j hj
    rw [h.loads_length] at hj
    obtain ⟨place, hplace, hword⟩ := h.exists_place hj
    have hle := hheap.first_le hplace
    rwa [placeKey, placeKey, hword] at hle

/-- Only the top of the heap changes its key when the partition there gets a packet. -/
theorem placeKey_give {n : Nat} {packet partition : UInt32}
    (h : HeapArrays n state.loads state.heap) (hpos : 0 < n)
    (htop : wordAt state.heap 0 = partition.toNat) {i : Nat} (hi0 : 0 < i) (hi : i < n) :
    placeKey (state.give resolved packet partition).loads state.heap i =
      placeKey state.loads state.heap i := by
  have hne : wordAt state.heap i ≠ partition.toNat := by
    intro heq
    have := h.wordAt_inj hi hpos (heq.trans htop.symm)
    omega
  have hlt : partition.toNat < state.loads.length := by
    rw [h.loads_length, ← htop]
    exact h.wordAt_lt hpos
  rw [placeKey, placeKey, loadKey, loadKey]
  show toLex (((state.loads.set _ _).getD _ 0).toNat, _) = _
  rw [getD_set hlt, if_neg hne]

/-- The heap of a stage that has given the packets `seen`. -/
structure HeapGiven (resolved : List UInt64) (partitions : Nat) (state : Assignment)
    (seen : List UInt32) (now : Assignment) : Prop where
  given : now = { giveAll resolved seen state with heap := now.heap }
  arrays : HeapArrays partitions now.loads now.heap
  heap : IsHeap (placeKey now.loads now.heap) partitions

/-- One turn of the heap assignment gives the packet to the least loaded partition. -/
theorem HeapGiven.turn {seen : List UInt32} {packet : UInt32} {now : Assignment} {fuel : Nat}
    (h : HeapGiven resolved partitions state seen now) (hpacket : packet.toNat < resolved.length)
    (hindices : state.partitionIndices.length = resolved.length)
    (hcounts : state.counts.length = partitions) (hpos : 0 < partitions)
    (hsmall : partitions ≤ 2 ^ 31) (hfuel : partitions ≤ fuel) :
    Ends (assignFromHeap fuel resolved packet now)
      (HeapGiven resolved partitions state (seen ++ [packet])) E := by
  obtain ⟨partition, hget, hlt, htop⟩ := h.arrays.read hpos
  have hleast := leastLoaded_at_top h.arrays h.heap hpos
  have hlen := h.arrays.loads_length
  have hnowIndices : now.partitionIndices.length = resolved.length := by
    rw [h.given]
    simpa using hindices
  have hnowCounts : now.counts.length = partitions := by
    rw [h.given]
    simpa using hcounts
  rw [assignFromHeap, fetch_of_lt hget, ok_bind,
    givePacket_eq (by omega) hpacket (by omega) hlt, ok_bind]
  have hsize : (UInt32.ofNat now.heap.length).toNat = partitions := by
    rw [h.arrays.length, UInt32.toNat_ofNat']
    exact Nat.mod_eq_of_lt (by omega)
  have hgiven : (now.give resolved packet partition).loads.length = partitions := by
    rw [Assignment.give, List.length_set, hlen]
  -- the top grew heavier, so it may have to sink
  have hsift := ends_siftDown (E := E) hsmall hsize fuel 0 now.heap
    (show HeapArrays partitions (now.give resolved packet partition).loads now.heap from
      ⟨h.arrays.places, hgiven, by omega⟩) hpos
    (by show partitions ≤ 0 + fuel; omega)
    (h.heap.raise_first fun i hi0 hi => placeKey_give h.arrays hpos htop hi0 hi)
  refine Ends.bind hsift ?_
  rintro heap' ⟨harrays', hheap'⟩
  refine ends_pure ⟨?_, harrays', hheap'⟩
  have hsame : UInt32.ofNat (leastLoaded now.loads) = partition := by
    rw [hleast, htop, UInt32.ofNat_toNat]
  have hloads : (giveAll resolved seen state).loads = now.loads := by rw [h.given]
  rw [giveAll_concat, giveLeast, hloads, hsame, h.given]
  rfl

/-- **The heap gives every packet to the least loaded partition**, as long as it has at most 2^31
places. -/
theorem ends_assignHeap {fuel : Nat} (hpackets : ∀ packet ∈ ordered, packet.toNat < resolved.length)
    (hindices : state.partitionIndices.length = resolved.length)
    (hpos : 0 < partitions) (hsmall : partitions ≤ 2 ^ 31)
    (hfuel : partitions ≤ fuel) (hheap : state.heap.length = partitions)
    (hloads : state.loads = List.replicate partitions 0)
    (hcounts : state.counts.length = partitions) :
    Ends (assignWeightedPacketPartitionsHeap fuel resolved ordered state)
      (fun now => now = { giveAll resolved ordered state with heap := now.heap } ∧
        now.heap.length = partitions) E := by
  have hword : partitions < 2 ^ 32 := by omega
  have hinit := ends_initialize (E := E) fuel hword hheap fun h0 => by omega
  rw [← hloads] at hinit
  rw [assignWeightedPacketPartitionsHeap]
  refine Ends.bind hinit ?_
  rintro heap rfl
  refine Ends.mono_post (ends_forEach (HeapGiven resolved partitions state) [] ⟨rfl, ?_, ?_⟩ ?_) ?_
  · exact heapArrays_allPackets hword _ (by rw [hloads, List.length_replicate])
  · show IsHeap (placeKey state.loads (allPackets partitions)) partitions
    rw [hloads]
    exact isHeap_allPackets hword
  · intro seen packet rest now hsplit hnow
    have hpacket := hpackets packet (by rw [show ordered = _ from hsplit]; simp)
    exact hnow.turn hpacket hindices hcounts hpos hsmall hfuel
  · intro now hnow
    exact ⟨hnow.given, hnow.arrays.length⟩

/-! ### The run behind the arrays -/

/-- A stage has given the packets `seen`, in order. -/
def Given (resolved : List UInt64) (partitions : Nat) (heapLength : Nat) (seen : List UInt32)
    (state : Assignment) : Prop :=
  state.heap.length = heapLength ∧
    ∃ history, history.map Prod.fst = seen ∧ Recounts resolved partitions history state

/-- A packet that comes next in the order is one not given yet. -/
theorem next_packet {seen rest : List UInt32} {packet : UInt32}
    (hall : ordered.Perm (allPackets resolved.length)) (hn : resolved.length < 2 ^ 32)
    (hsplit : ordered = seen ++ packet :: rest) :
    packet.toNat < resolved.length ∧ packet ∉ seen ∧ seen.length + 1 < 2 ^ 32 := by
  have hnodup : ordered.Nodup := hall.nodup_iff.mpr (nodup_allPackets hn)
  have hlen := hall.length_eq
  rw [length_allPackets, hsplit, List.length_append, List.length_cons] at hlen
  refine ⟨?_, ?_, by omega⟩
  · refine (mem_allPackets hn).mp (hall.mem_iff.mp ?_)
    rw [hsplit]
    simp
  · rw [hsplit] at hnodup
    have := (List.nodup_append.mp hnodup).2.2
    intro hmem
    exact this packet hmem packet (by simp) rfl

/-- Giving packets to the least loaded partitions is a run of list scheduling. -/
theorem recounts_giveAll (hall : ordered.Perm (allPackets resolved.length))
    (hn : resolved.length < 2 ^ 32) (hpos : 0 < partitions) (hword : partitions < 2 ^ 32)
    (hstart : Recounts resolved partitions [] state) {seen rest : List UInt32}
    (hsplit : ordered = seen ++ rest) :
    ∃ history, history.map Prod.fst = seen ∧
      Recounts resolved partitions history (giveAll resolved seen state) := by
  induction seen using List.reverseRecOn generalizing rest with
  | nil => exact ⟨[], rfl, hstart⟩
  | append_singleton seen packet ih =>
      rw [List.append_assoc, List.singleton_append] at hsplit
      obtain ⟨history, rfl, htracks⟩ := ih hsplit
      obtain ⟨hpacket, hnew, hshort⟩ := next_packet hall hn hsplit
      have hlen := htracks.loads_length
      have hleast := leastLoaded_lt (giveAll resolved (history.map Prod.fst) state).loads
        (by omega)
      have hnat := toNat_leastLoaded
        (giveAll resolved (history.map Prod.fst) state).loads (by omega) (by omega)
      refine ⟨history ++ [(packet, (UInt32.ofNat (leastLoaded
        (giveAll resolved (history.map Prod.fst) state).loads)).toNat)], by simp, ?_⟩
      rw [giveAll_concat]
      refine htracks.give hpacket (by omega) ?_ hnew (by rwa [List.length_map] at hshort)
      intro j hj
      rw [hnat]
      exact load_le_of_loadKey_le (leastLoaded_le (by omega))

/-- **The assignment stage gives every packet in order by list scheduling**, as long as the heap
has at most 2^31 places. -/
theorem ends_assignWeightedPacketPartitions {fuel : Nat}
    (hall : ordered.Perm (allPackets resolved.length)) (hn : resolved.length < 2 ^ 32)
    (hpos : 0 < partitions) (hsmall : partitions ≤ 2 ^ 31) (hfuel : partitions ≤ fuel)
    (hindices : state.partitionIndices.length = resolved.length)
    (hloads : state.loads.length = partitions) (hcounts : state.counts.length = partitions)
    (hheap : state.heap.length = partitions) :
    Ends (assignWeightedPacketPartitions fuel resolved ordered state)
      (Given resolved partitions partitions ordered) E := by
  have hpackets : ∀ packet ∈ ordered, packet.toNat < resolved.length := fun packet hmem =>
    (mem_allPackets hn).mp (hall.mem_iff.mp hmem)
  have hstart : Recounts resolved partitions []
      { state with loads := List.replicate state.loads.length 0
                   counts := List.replicate state.counts.length 0 } :=
    tracks_start hindices (by rw [hloads]) (by rw [hcounts])
  obtain ⟨history, hseen, htracks⟩ := recounts_giveAll hall hn hpos (by omega) hstart
    (List.append_nil ordered).symm
  rw [assignWeightedPacketPartitions]
  simp only [List.length_replicate]
  rw [if_neg (by omega)]
  by_cases height : state.loads.length = 8
  · have hrun := assignEightPartitions_eq hpackets hstart.indices_length
      (hstart.loads_length.trans (by omega)) (hstart.counts_length.trans (by omega))
    rw [if_pos height, hrun]
    refine ends_pure ⟨?_, history, hseen, htracks⟩
    rw [giveAll_heap]
    exact hheap
  · rw [if_neg height]
    refine Ends.mono_post (ends_assignHeap hpackets hindices hpos hsmall hfuel hheap
      (by rw [hloads]) (by rw [List.length_replicate, hcounts])) ?_
    rintro now ⟨hnow, hlen⟩
    refine ⟨hlen, history, hseen, ?_⟩
    rw [hnow]
    exact htracks.withHeap _

/-- **Both forms of the stage give every packet to the same partition**, the one that has the least
load, and of these the first, at that moment. -/
theorem assignEight_eq_heap (resolved : List UInt64) (ordered : List UInt32) (state : Assignment)
    (hpackets : ∀ packet ∈ ordered, packet.toNat < resolved.length)
    (hindices : state.partitionIndices.length = resolved.length)
    (hloads : state.loads = List.replicate 8 0) (hcounts : state.counts = List.replicate 8 0)
    (hheap : state.heap.length = 8) :
    assignEightPartitions resolved ordered state = Except.ok (giveAll resolved ordered state) ∧
      (∀ fuel, 8 ≤ fuel → ∃ heap,
        assignWeightedPacketPartitionsHeap fuel resolved ordered state =
          Except.ok { giveAll resolved ordered state with heap := heap }) ∧
      ∀ loads : List UInt64, 0 < loads.length → leastLoaded loads < loads.length ∧
        ∀ j, j < loads.length → loadKey loads (leastLoaded loads) ≤ loadKey loads j := by
  refine ⟨?_, ?_, ?_⟩
  · apply assignEightPartitions_eq hpackets hindices
    · rw [hloads, List.length_replicate]
    · rw [hcounts, List.length_replicate]
  · intro fuel hfuel
    have hends := ends_assignHeap (E := fun _ => False) hpackets hindices (by decide) (by decide)
      hfuel hheap hloads (by rw [hcounts, List.length_replicate])
    obtain ⟨now, hrun, hnow, -⟩ := hends.returns
    exact ⟨now.heap, hrun.trans (congrArg Except.ok hnow)⟩
  · intro loads hpos
    exact ⟨leastLoaded_lt _ hpos, fun j hj => leastLoaded_le hj⟩

/-- Ten packets of full load for eight partitions: from the ninth on the loads tie and saturate. -/
theorem assignEight_eq_heap_saturated :
    ∃ heap, assignWeightedPacketPartitionsHeap 8 (List.replicate 10 18446744073709551615)
        (allPackets 10) { partitionIndices := List.replicate 10 0, loads := List.replicate 8 0,
                          counts := List.replicate 8 0, heap := List.replicate 8 0 } =
      Except.ok { giveAll (List.replicate 10 18446744073709551615) (allPackets 10)
        { partitionIndices := List.replicate 10 0, loads := List.replicate 8 0,
          counts := List.replicate 8 0, heap := List.replicate 8 0 } with heap := heap } :=
  (assignEight_eq_heap (List.replicate 10 18446744073709551615) (allPackets 10) _
    (fun _ hpacket => (mem_allPackets (by decide)).mp hpacket) rfl rfl rfl rfl).2.1 8
    (Nat.le_refl 8)

end Stage

end RunD
