/-
Dealing packets to slots by work and capacity.

At a limit a slot may take work up to `limit * capacity / kRatioScale`.  The
planner fills the slots greedily, searches for a limit at which the packets run
out exactly at the last slot, and returns the partitions of that limit.

The search halves an interval of limits, but the greedy fill is not monotone in
the limit when the capacities differ: with more allowed, an early slot can take
the light packets before a heavy one and leave the heavy one to a slot that is
too small for it.  The planner always succeeds, and the limit it ends with is the
worst ratio of its partitions; that is the least possible one exactly when the
greedy fill succeeds at every limit from there on that the search looks at
(`buildsOptimal_iff`), for instance when the capacities do not grow along the slots
(`cuts_fillCut_of_antitone`).
-/
import RunD.GreedyCut
import RunD.MinimaxSearch

namespace RunD.Planner

/-! ### The planner -/

section
variable {ε : Type}

/-- `WorkAtLimit`. -/
def workAtLimit (limit : UInt64) (capacity : UInt32) : UInt64 :=
  let whole := limit / kRatioScale
  let rem := limit % kRatioScale
  let base := scalarSatMul whole capacity.toUInt64
  let extra := scalarSatMul rem capacity.toUInt64 / kRatioScale
  scalarSatAdd base extra

/-- `PacketWork`. -/
def packetWork (request : PartitionRequest) (packet : ℕ) : Checked ε UInt64 := do
  let units ← fetch request.packetWorkUnits packet
  pure (normalizeWorkUnits units)

/-- `TotalWork`. -/
def requestWork (request : PartitionRequest) : Checked ε UInt64 :=
  forRange request.packetCount.toNat (fun packet total => do
    let work ← packetWork request packet
    pure (scalarSatAdd total work)) 0

/-- The loop of `ConsumeSlot`, as many turns as there are packets before `max_end`. -/
def consumePackets (request : PartitionRequest) («begin» : UInt32) (allowed : UInt64) :
    ℕ → UInt32 → UInt64 → Checked (Option UInt32) UInt32
  | 0, packet, _ => pure packet
  | left + 1, packet, work => do
      let next ← packetWork request packet.toNat
      let candidate := scalarSatAdd work next
      if packet ≠ «begin» ∧ candidate > allowed then pure packet
      else do
        require (¬ candidate > allowed) none
        consumePackets request «begin» allowed left (packet + 1) candidate

/-- `ConsumeSlot`: the packet after the slot's, or `none` for false. -/
def consumeSlot (request : PartitionRequest) (slot partitionCount : UInt32) (limit : UInt64)
    (packet : UInt32) : Checked ε (Option UInt32) :=
  call do
    let remainingSlots := partitionCount - slot - 1
    let maxEnd := request.packetCount - remainingSlots
    let capacity ← capacityForSlot request slot.toNat
    let stop ← consumePackets request packet (workAtLimit limit capacity)
      (maxEnd.toNat - packet.toNat) packet 0
    pure (if stop ≠ packet then some stop else none)

/-- `Feasible`. -/
def feasibleWork (request : PartitionRequest) (partitionCount : UInt32) (limit : UInt64) :
    Checked ε Bool :=
  call do
    let packet ← forRange partitionCount.toNat (fun slot packet => do
      let filled ← consumeSlot request (UInt32.ofNat slot) partitionCount limit packet
      match filled with
      | none => leave false
      | some packet => pure packet) 0
    pure (packet == request.packetCount)

/-- `MinimaxLimit`: the interval of the limits is a word's, which 64 halvings use up. -/
def minimaxWorkLimit (request : PartitionRequest) (partitionCount : UInt32) :
    Checked ε UInt64 := do
  let total ← requestWork request
  let found ← searchLimit (feasibleWork request partitionCount) 64 0
    (scalarSatMul total kRatioScale)
  pure found.1

/-- The variables of the loop that builds the partitions. -/
structure WorkPartitions where
  «begin» : UInt32 := 0
  outMaxPackets : UInt32 := 0
  outPartitions : List Partition := []

/-- `BuildMinimaxWorkPartitions`, or `none` for false. -/
def buildMinimaxWorkPartitions (request : PartitionRequest) (partitionCount : UInt32) :
    Checked ε (Option (List Partition × UInt32)) :=
  call do
    let limit ← minimaxWorkLimit request partitionCount
    let built ← forRange partitionCount.toNat (fun slot (state : WorkPartitions) => do
      let filled ← consumeSlot request (UInt32.ofNat slot) partitionCount limit state.begin
      match filled with
      | none => leave none
      | some stop =>
          pure { «begin» := stop,
                 outMaxPackets := max state.outMaxPackets (stop - state.begin),
                 outPartitions := state.outPartitions ++
                   [{ workerIndex := UInt32.ofNat slot, «begin» := state.begin,
                      «end» := stop }] }) {}
    pure (if built.begin = request.packetCount then
      some (built.outPartitions, built.outMaxPackets) else none)

end

/-! ### The work a slot may take -/

/-- The work a slot may take at a limit. -/
def allowedAt (request : PartitionRequest) (limit slot : ℕ) : ℕ :=
  limit * slotCapacity request slot / ratioScale

theorem monotone_workBefore (works : List UInt64) : Monotone (workBefore works) :=
  fun _ _ h => workBefore_mono works h

/-- The saturating operations come to the quotient, capped at the largest word. -/
theorem toNat_workAtLimit (limit : UInt64) (capacity : UInt32) :
    (workAtLimit limit capacity).toNat =
      min maxLoad (limit.toNat * capacity.toNat / ratioScale) := by
  have hcapacity := capacity.toNat_lt
  have hscale : kRatioScale.toNat = ratioScale := rfl
  have hpos : 0 < ratioScale := by decide
  have hrem : limit.toNat % ratioScale < ratioScale := Nat.mod_lt _ hpos
  have hremBound : limit.toNat % ratioScale * capacity.toNat ≤ 1000000 * (2 ^ 32 - 1) :=
    Nat.mul_le_mul (show _ ≤ 1000000 from hrem.le) (by omega)
  have hextra : (scalarSatMul (limit % kRatioScale) capacity.toUInt64 / kRatioScale).toNat =
      limit.toNat % ratioScale * capacity.toNat / ratioScale := by
    rw [UInt64.toNat_div, toNat_scalarSatMul_fits, UInt64.toNat_mod, hscale, UInt32.toNat_toUInt64]
    rw [UInt64.toNat_mod, hscale, UInt32.toNat_toUInt64]
    omega
  rw [workAtLimit, mul_div_ratioScale, toNat_scalarSatAdd, hextra, toNat_scalarSatMul, UInt64.toNat_div,
    hscale, UInt32.toNat_toUInt64]
  generalize limit.toNat / ratioScale * capacity.toNat = base
  generalize limit.toNat % ratioScale * capacity.toNat / ratioScale = extra
  omega

/-! ### The fill of a slot -/

/-- What the planner is given: the work of every packet, a capacity for every slot, no more slots
than packets, and a scaled total that is a word. -/
structure WorkRequest (request : PartitionRequest) (k : ℕ) : Prop where
  works : request.packetWorkUnits.length = request.packetCount.toNat
  caps : HasCapacities request k
  slots_pos : 0 < k
  slots_le : k ≤ request.packetCount.toNat
  total : workBefore request.packetWorkUnits request.packetCount.toNat * ratioScale < 2 ^ 64

/-- The cut of the greedy fill at a limit. -/
def fillCut (request : PartitionRequest) (k limit : ℕ) : ℕ → ℕ :=
  greedyCut (workBefore request.packetWorkUnits) (allowedAt request limit) k
    request.packetCount.toNat

section
variable {ε : Type} {E : ε → Prop} {request : PartitionRequest}

theorem packetWork_eq {packet : ℕ} (h : packet < request.packetWorkUnits.length) :
    ∃ work : UInt64, (packetWork request packet : Checked ε UInt64) = Except.ok work ∧
      work.toNat = workOf request.packetWorkUnits packet := by
  obtain ⟨units, hget⟩ : ∃ units, request.packetWorkUnits[packet]? = some units :=
    ⟨_, List.getElem?_eq_getElem h⟩
  refine ⟨normalizeWorkUnits units, ?_, toNat_normalize hget⟩
  rw [packetWork, fetch_of_lt hget]
  rfl

theorem ends_requestWork (hworks : request.packetWorkUnits.length = request.packetCount.toNat) :
    Ends (requestWork request) (fun total => total.toNat =
      min maxLoad (workBefore request.packetWorkUnits request.packetCount.toNat)) E := by
  refine ends_forRange (fun packet (total : UInt64) =>
    total.toNat = min maxLoad (workBefore request.packetWorkUnits packet)) ?_ ?_
  · rw [workBefore_zero, Nat.min_zero]
    rfl
  · intro packet total hpacket htotal
    obtain ⟨work, hrun, hwork⟩ := packetWork_eq (ε := ε) (by rw [hworks]; exact hpacket)
    rw [hrun, ok_bind]
    apply ends_pure
    rw [toNat_scalarSatAdd, htotal, hwork, workBefore_succ]
    omega

/-- The loop over the packets of a slot fills as far as the limit allows; it gives up only on the
first packet. -/
theorem ends_consumePackets {start left s : ℕ} {«begin» packet : UInt32} {allowed work : UInt64}
    (bound : ℕ) (hbegin : begin.toNat = start) (hpacket : packet.toNat = s) (hstart : start ≤ s)
    (hlength : s + left ≤ request.packetWorkUnits.length)
    (hword : request.packetWorkUnits.length < 2 ^ 32)
    (htotal : workBefore request.packetWorkUnits request.packetWorkUnits.length < 2 ^ 64)
    (hallowed : allowed.toNat = min maxLoad bound)
    (hwork : work.toNat = workBefore request.packetWorkUnits s -
      workBefore request.packetWorkUnits start) :
    Ends (consumePackets request «begin» allowed left packet work)
      (fun stop => stop.toNat = fillTo (workBefore request.packetWorkUnits) start bound left s)
      (fun given => given = none ∧
        fillTo (workBefore request.packetWorkUnits) start bound left s = start) := by
  induction left generalizing s packet work with
  | zero => exact ends_pure hpacket
  | succ left ih =>
      obtain ⟨next, hrun, hnext⟩ := packetWork_eq (ε := Option UInt32)
        (show packet.toNat < request.packetWorkUnits.length by omega)
      have hmono := workBefore_mono request.packetWorkUnits hstart
      have hlast := workBefore_mono request.packetWorkUnits
        (show s + 1 ≤ request.packetWorkUnits.length by omega)
      have hsucc := workBefore_succ request.packetWorkUnits s
      have hcandidate : (scalarSatAdd work next).toNat =
          workBefore request.packetWorkUnits (s + 1) -
            workBefore request.packetWorkUnits start := by
        rw [toNat_scalarSatAdd, hwork, hnext, hpacket, maxLoad]
        omega
      have hover : scalarSatAdd work next > allowed ↔
          ¬ workBefore request.packetWorkUnits (s + 1) -
            workBefore request.packetWorkUnits start ≤ bound := by
        rw [gt_iff_lt, UInt64.lt_iff_toNat_lt, hallowed, hcandidate, maxLoad]
        omega
      have hsame : packet ≠ «begin» ↔ s ≠ start := by
        rw [← hpacket, ← hbegin, ne_eq, ne_eq, UInt32.toNat_inj]
      rw [consumePackets, hrun, ok_bind, fillTo]
      dsimp only
      by_cases hfits : workBefore request.packetWorkUnits (s + 1) -
          workBefore request.packetWorkUnits start ≤ bound
      · rw [if_neg fun h => hover.mp h.2 hfits, if_pos hfits]
        refine Ends.require_bind (fun hno => absurd hfits (hover.mp (not_not.mp hno))) fun _ => ?_
        have hone : (packet + 1).toNat = s + 1 := by
          rw [toNat_add_fits, hpacket]
          · rfl
          · rw [hpacket]
            show s + 1 < 2 ^ 32
            omega
        exact ih hone (Nat.le_succ_of_le hstart) (by omega) hcandidate
      · rw [if_neg hfits]
        by_cases hfirst : s = start
        · rw [if_neg fun h => hsame.mp h.1 hfirst]
          refine Ends.require_bind (fun _ => ⟨rfl, hfirst⟩) fun hno => ?_
          exact absurd (hover.mpr hfits) hno
        · rw [if_pos ⟨hsame.mpr hfirst, hover.mpr hfits⟩]
          exact ends_pure hpacket

/-- **A slot** takes the packets of its part of the greedy cut, and fails when that part is
empty. -/
theorem ends_consumeSlot {partitionCount : UInt32} {limit : UInt64} {packet : UInt32} {slot : ℕ}
    (h : WorkRequest request partitionCount.toNat) (hslot : slot < partitionCount.toNat)
    (hpacket : packet.toNat = fillCut request partitionCount.toNat limit.toNat slot) :
    Ends (consumeSlot request (UInt32.ofNat slot) partitionCount limit packet)
      (fun filled =>
        (filled = none ∧ fillCut request partitionCount.toNat limit.toNat (slot + 1) =
          fillCut request partitionCount.toNat limit.toNat slot) ∨
        ∃ stop, filled = some stop ∧
          stop.toNat = fillCut request partitionCount.toNat limit.toNat (slot + 1) ∧
          fillCut request partitionCount.toNat limit.toNat slot <
            fillCut request partitionCount.toNat limit.toNat (slot + 1)) E := by
  have hcount := partitionCount.toNat_lt
  have hslots := h.slots_le
  have hindex : (UInt32.ofNat slot).toNat = slot := toNat_ofNat_lt (hslot.trans hcount)
  have hroom : packet.toNat + (partitionCount.toNat - slot) ≤ request.packetCount.toNat := by
    rw [hpacket]
    exact greedyCut_room (monotone_workBefore _) _ hslots hslot.le
  have hremaining : (partitionCount - UInt32.ofNat slot - 1).toNat =
      partitionCount.toNat - slot - 1 := by
    have hless : (partitionCount - UInt32.ofNat slot).toNat = partitionCount.toNat - slot := by
      rw [UInt32.toNat_sub_of_le, hindex]
      rw [UInt32.le_iff_toNat_le, hindex]
      exact hslot.le
    rw [UInt32.toNat_sub_of_le, hless]
    · rfl
    · rw [UInt32.le_iff_toNat_le, hless]
      exact Nat.le_sub_of_add_le (by rw [Nat.add_comm]; exact hslot)
  have hmaxEnd : (request.packetCount - (partitionCount - UInt32.ofNat slot - 1)).toNat =
      request.packetCount.toNat - (partitionCount.toNat - slot - 1) := by
    rw [UInt32.toNat_sub_of_le, hremaining]
    rw [UInt32.le_iff_toNat_le, hremaining]
    omega
  obtain ⟨capacity, hrun, hcapacity⟩ := capacityForSlot_eq (ε := Option UInt32) h.caps hslot
  have htotal : workBefore request.packetWorkUnits request.packetWorkUnits.length < 2 ^ 64 := by
    rw [h.works]
    exact lt_of_le_of_lt (Nat.le_mul_of_pos_right _ (by decide)) h.total
  have hfill : fillTo (workBefore request.packetWorkUnits) packet.toNat
      (allowedAt request limit.toNat slot)
      (request.packetCount.toNat - (partitionCount.toNat - slot - 1) - packet.toNat)
      packet.toNat = fillCut request partitionCount.toNat limit.toNat (slot + 1) := by
    rw [hpacket]
    rfl
  have hgrow : packet.toNat ≤ fillCut request partitionCount.toNat limit.toNat (slot + 1) := by
    rw [hpacket]
    exact (greedyCut_isGreatest (monotone_workBefore _) _ _ _ slot).1.1
  apply Ends.call
  rw [hindex, hrun, ok_bind, hmaxEnd]
  refine Ends.bind (Ends.mono (ends_consumePackets
    (allowedAt request limit.toNat slot) rfl rfl (le_refl _) ?_ ?_ htotal ?_ ?_) ?_) ?_
  · rw [h.works]
    omega
  · rw [h.works]
    exact request.packetCount.toNat_lt
  · rw [toNat_workAtLimit, hcapacity, allowedAt]
  · rw [Nat.sub_self]
    rfl
  · rintro given ⟨hnone, hempty⟩
    rw [hfill] at hempty
    exact Or.inl ⟨hnone, by rw [hempty, hpacket]⟩
  · intro stop hstop
    rw [hfill] at hstop
    apply ends_pure
    by_cases hmoved : stop = packet
    · rw [if_neg (not_not_intro hmoved)]
      exact Or.inl ⟨rfl, by rw [← hstop, hmoved, hpacket]⟩
    · rw [if_pos hmoved]
      refine Or.inr ⟨stop, rfl, hstop, ?_⟩
      rw [← hpacket]
      refine Nat.lt_of_le_of_ne hgrow fun heq => hmoved (UInt32.toNat_inj.mp ?_)
      rw [hstop, heq]

/-- **The test of the search**: the greedy fill is a cut of the packets. -/
theorem ends_feasibleWork {partitionCount : UInt32} {limit : UInt64}
    (h : WorkRequest request partitionCount.toNat) :
    Ends (feasibleWork request partitionCount limit)
      (fun fits => fits = true ↔ Cuts (fillCut request partitionCount.toNat limit.toNat)
        partitionCount.toNat request.packetCount.toNat) E := by
  apply Ends.call
  refine Ends.bind (ends_forRange (fun i (packet : UInt32) =>
    packet.toNat = fillCut request partitionCount.toNat limit.toNat i ∧
      ∀ j, j < i → fillCut request partitionCount.toNat limit.toNat j <
        fillCut request partitionCount.toNat limit.toNat (j + 1)) ⟨rfl, ?_⟩ ?_) ?_
  · exact fun j hj => absurd hj (Nat.not_lt_zero j)
  · rintro slot packet hslot ⟨hpacket, hsteps⟩
    refine Ends.bind (ends_consumeSlot h hslot hpacket) ?_
    rintro filled (⟨rfl, hempty⟩ | ⟨stop, rfl, hstop, hlt⟩)
    · apply ends_leave
      simp only [Bool.false_eq_true, false_iff]
      exact fun hcut => absurd (hcut.step slot hslot) (by rw [hempty]; exact lt_irrefl _)
    · refine ends_pure ⟨hstop, fun j hj => ?_⟩
      rcases Nat.lt_succ_iff_lt_or_eq.mp hj with hjlt | rfl
      · exact hsteps j hjlt
      · exact hlt
  · rintro packet ⟨hpacket, hsteps⟩
    apply ends_pure
    rw [beq_iff_eq, ← UInt32.toNat_inj, hpacket]
    exact ⟨fun hstop => ⟨rfl, hstop, hsteps⟩, fun hcut => hcut.stop⟩

/-- The largest limit of the search is the scaled total. -/
theorem toNat_scaledTotal {total : UInt64} {k : ℕ} (h : WorkRequest request k)
    (htotal : total.toNat =
      min maxLoad (workBefore request.packetWorkUnits request.packetCount.toNat)) :
    (scalarSatMul total kRatioScale).toNat =
      workBefore request.packetWorkUnits request.packetCount.toNat * ratioScale := by
  have hscaled := h.total
  have hfits : workBefore request.packetWorkUnits request.packetCount.toNat ≤ maxLoad := by
    have hle := Nat.le_mul_of_pos_right
      (workBefore request.packetWorkUnits request.packetCount.toNat) (show 0 < ratioScale by decide)
    rw [maxLoad]
    omega
  rw [min_eq_right hfits] at htotal
  have hscale : kRatioScale.toNat = ratioScale := rfl
  rw [toNat_scalarSatMul_fits, htotal, hscale]
  rw [htotal, hscale]
  exact hscaled

/-- Whether the greedy fill at a limit is a cut of the packets. -/
def fillFits (request : PartitionRequest) (k limit : ℕ) : Bool :=
  decide (Cuts (fillCut request k limit) k request.packetCount.toNat)

/-- **The limit** is found by halving with the greedy fill as the test. -/
theorem minimaxWorkLimit_eq {partitionCount : UInt32}
    (h : WorkRequest request partitionCount.toNat) :
    ∃ limit : UInt64, (minimaxWorkLimit request partitionCount : Checked ε UInt64) =
        Except.ok limit ∧
      limit.toNat = bisect (fillFits request partitionCount.toNat) 64 0
        (workBefore request.packetWorkUnits request.packetCount.toNat * ratioScale) := by
  obtain ⟨total, hrun, htotal⟩ :=
    Ends.returns (ends_requestWork (ε := ε) (E := fun _ => False) h.works)
  have hhigh := toNat_scaledTotal h htotal
  obtain ⟨limit, hsearch, hlimit⟩ := searchLimit_eq (ε := ε)
    (feasibleWork request partitionCount) (fillFits request partitionCount.toNat)
    (show (0 : UInt64).toNat ≤ _ from Nat.zero_le _)
    (lt_of_le_of_lt (Nat.sub_le _ _) (UInt64.toNat_lt _)) (by
      intro limit _
      obtain ⟨fits, hfits, hiff⟩ := Ends.returns
        (ends_feasibleWork (E := fun _ => False) h)
      rw [hfits]
      exact congrArg Except.ok (Bool.eq_iff_iff.mpr (by rw [hiff, fillFits, decide_eq_true_iff])))
  refine ⟨limit, ?_, ?_⟩
  · rw [minimaxWorkLimit, hrun, ok_bind, hsearch]
    rfl
  · rw [hlimit, hhigh]
    rfl

/-- At a limit at which the greedy fill is a cut, the planner returns its partitions. -/
theorem ends_buildMinimaxWorkPartitions {partitionCount : UInt32}
    (h : WorkRequest request partitionCount.toNat) {t : ℕ}
    (ht : t = bisect (fillFits request partitionCount.toNat) 64 0
      (workBefore request.packetWorkUnits request.packetCount.toNat * ratioScale))
    (hcut : Cuts (fillCut request partitionCount.toNat t) partitionCount.toNat
      request.packetCount.toNat) :
    Ends (buildMinimaxWorkPartitions request partitionCount)
      (fun result => ∃ (partitions : List Partition) (maxPackets : UInt32),
        result = some (partitions, maxPackets) ∧
        Partitioned partitions (fillCut request partitionCount.toNat t) partitionCount.toNat
          request.packetCount.toNat ∧
        maxPackets.toNat = widestPart (fillCut request partitionCount.toNat t)
          partitionCount.toNat) E := by
  obtain ⟨limit, hrun, hlimit⟩ :=
    minimaxWorkLimit_eq (ε := Option (List Partition × UInt32)) h
  rw [← ht] at hlimit
  subst hlimit
  apply Ends.call
  rw [hrun, ok_bind]
  refine Ends.bind (ends_forRange (fun i (state : WorkPartitions) =>
    state.begin.toNat = fillCut request partitionCount.toNat limit.toNat i ∧
      state.outMaxPackets.toNat =
        widestPart (fillCut request partitionCount.toNat limit.toNat) i ∧
      state.outPartitions.length = i ∧
      PartsUpTo (fillCut request partitionCount.toNat limit.toNat) i state.outPartitions)
    ⟨rfl, rfl, rfl, partsUpTo_zero _ _⟩ ?_) ?_
  · rintro slot state hslot ⟨hbegin, hwidest, hlength, hparts⟩
    have hstep := hcut.step slot hslot
    refine Ends.bind (ends_consumeSlot h hslot hbegin) ?_
    rintro filled (⟨rfl, hempty⟩ | ⟨stop, rfl, hstop, hlt⟩)
    · exact absurd hstep (by rw [hempty]; exact lt_irrefl _)
    · have hwidth : (stop - state.begin).toNat =
          fillCut request partitionCount.toNat limit.toNat (slot + 1) -
            fillCut request partitionCount.toNat limit.toNat slot := by
        rw [UInt32.toNat_sub_of_le, hstop, hbegin]
        rw [UInt32.le_iff_toNat_le, hstop, hbegin]
        exact hlt.le
      refine ends_pure ⟨hstop, ?_, ?_, ?_⟩
      · show (max state.outMaxPackets (stop - state.begin)).toNat = _
        rw [toNat_max, hwidth, hwidest, widestPart_succ]
      · show (state.outPartitions ++ _).length = _
        rw [List.length_append, hlength]
        rfl
      · exact hparts.push hlength (toNat_ofNat_lt (hslot.trans partitionCount.toNat_lt)) hbegin
          hstop
  · rintro state ⟨hbegin, hwidest, hlength, hparts⟩
    rw [if_pos (UInt32.toNat_inj.mp (by rw [hbegin, hcut.stop]))]
    exact ends_pure ⟨_, _, rfl, ⟨hcut, hlength, hparts⟩, hwidest⟩

end

/-! ### Ratios -/

/-- The least limit at which a slot may take the work: the work over the capacity, scaled and
rounded up. -/
def scaledRatio (work capacity : ℕ) : ℕ := (work * ratioScale + (capacity - 1)) / capacity

theorem scaledRatio_le_iff {work capacity limit : ℕ} (h : 0 < capacity) :
    scaledRatio work capacity ≤ limit ↔ work ≤ limit * capacity / ratioScale := by
  rw [scaledRatio, Nat.le_div_iff_mul_le (show 0 < ratioScale by decide), ← Nat.lt_succ_iff,
    Nat.div_lt_iff_lt_mul h, Nat.succ_mul]
  omega

/-- The largest scaled ratio of the first `k` parts of a cut to the capacities of their slots. -/
def worstRatio (request : PartitionRequest) (cut : ℕ → ℕ) : ℕ → ℕ
  | 0 => 0
  | i + 1 =>
      max (worstRatio request cut i)
        (scaledRatio (workBefore request.packetWorkUnits (cut (i + 1)) -
          workBefore request.packetWorkUnits (cut i)) (slotCapacity request i))

/-- The worst ratio is the least limit at which every part fits its slot. -/
theorem worstRatio_le_iff {request : PartitionRequest} {cut : ℕ → ℕ} {k limit : ℕ}
    (hcaps : HasCapacities request k) :
    worstRatio request cut k ≤ limit ↔
      PartsFit (workBefore request.packetWorkUnits) (allowedAt request limit) cut k := by
  induction k with
  | zero => exact ⟨fun _ i hi => absurd hi (Nat.not_lt_zero i), fun _ => Nat.zero_le _⟩
  | succ k ih =>
      rw [worstRatio, max_le_iff, ih fun slot hslot => hcaps slot (Nat.lt_succ_of_lt hslot),
        scaledRatio_le_iff (hcaps k (Nat.lt_succ_self k)).2]
      constructor
      · rintro ⟨hbefore, hlast⟩ i hi
        rcases Nat.lt_succ_iff_lt_or_eq.mp hi with hlt | rfl
        · exact hbefore i hlt
        · exact hlast
      · exact fun hall => ⟨fun i hi => hall i (Nat.lt_succ_of_lt hi), hall k (Nat.lt_succ_self k)⟩

theorem worstRatio_congr {request : PartitionRequest} {cut cut' : ℕ → ℕ} {k : ℕ}
    (h : ∀ i, i ≤ k → cut i = cut' i) : worstRatio request cut k = worstRatio request cut' k := by
  induction k with
  | zero => rfl
  | succ k ih =>
      rw [worstRatio, worstRatio, ih fun i hi => h i (Nat.le_succ_of_le hi),
        h k (Nat.le_succ k), h (k + 1) (le_refl _)]

/-- The least worst ratio of all cuts of the packets into `k` parts. -/
noncomputable def bestRatio (request : PartitionRequest) (k : ℕ) : ℕ :=
  sInf {r | ∃ cut, Cuts cut k request.packetCount.toNat ∧ worstRatio request cut k = r}

theorem bestRatio_le {request : PartitionRequest} {k : ℕ} {cut : ℕ → ℕ}
    (h : Cuts cut k request.packetCount.toNat) :
    bestRatio request k ≤ worstRatio request cut k := Nat.sInf_le ⟨cut, h, rfl⟩

theorem exists_bestRatio {request : PartitionRequest} {k : ℕ} (hk : 0 < k)
    (hle : k ≤ request.packetCount.toNat) :
    ∃ cut, Cuts cut k request.packetCount.toNat ∧
      worstRatio request cut k = bestRatio request k := by
  have hsome : {r | ∃ cut, Cuts cut k request.packetCount.toNat ∧
      worstRatio request cut k = r}.Nonempty := ⟨_, _, cuts_evenCut hk hle, rfl⟩
  exact Nat.sInf_mem hsome

/-! ### The limit of the search -/

section
variable {request : PartitionRequest} {k : ℕ}

theorem allowedAt_mono {limit limit' : ℕ} (h : limit ≤ limit') (slot : ℕ) :
    allowedAt request limit slot ≤ allowedAt request limit' slot :=
  Nat.div_le_div_right (Nat.mul_le_mul_right _ h)

theorem worstRatio_fillCut_le (hcaps : HasCapacities request k) (limit : ℕ) :
    worstRatio request (fillCut request k limit) k ≤ limit :=
  (worstRatio_le_iff hcaps).mpr (partsFit_greedyCut (monotone_workBefore _))

/-- At the scaled total every part fits. -/
theorem cuts_fillCut_top (h : WorkRequest request k) :
    Cuts (fillCut request k
      (workBefore request.packetWorkUnits request.packetCount.toNat * ratioScale)) k
      request.packetCount.toNat := by
  apply cuts_greedyCut_of_all (monotone_workBefore _) h.slots_pos h.slots_le
  intro i hi
  rw [allowedAt, Nat.mul_right_comm, Nat.mul_div_cancel _ (show 0 < ratioScale by decide)]
  exact Nat.le_mul_of_pos_right _ (h.caps i hi).2

/-- The greedy fill at a limit is the greedy fill at every limit down to its worst ratio. -/
theorem cuts_fillCut_of_worst (hcaps : HasCapacities request k) {limit limit' : ℕ}
    (hcut : Cuts (fillCut request k limit) k request.packetCount.toNat) (hle : limit' ≤ limit)
    (hworst : worstRatio request (fillCut request k limit) k ≤ limit') :
    Cuts (fillCut request k limit') k request.packetCount.toNat :=
  hcut.congr fun _ hi => greedyCut_eq_of_fits (monotone_workBefore _)
    (fun slot _ => allowedAt_mono hle slot) ((worstRatio_le_iff hcaps).mp hworst) hi

/-- **The limit found** is the worst ratio of the partitions at it. -/
theorem worstRatio_bisect (h : WorkRequest request k) {t : ℕ}
    (ht : t = bisect (fillFits request k) 64 0
      (workBefore request.packetWorkUnits request.packetCount.toNat * ratioScale)) :
    Cuts (fillCut request k t) k request.packetCount.toNat ∧
      worstRatio request (fillCut request k t) k = t := by
  have hfuel : workBefore request.packetWorkUnits request.packetCount.toNat * ratioScale - 0 <
      2 ^ 64 := h.total
  have hcut : Cuts (fillCut request k t) k request.packetCount.toNat := by
    rcases bisect_holds (Nat.zero_le _) hfuel with htop | hholds
    · rw [ht, htop]
      exact cuts_fillCut_top h
    · rw [ht]
      exact of_decide_eq_true hholds
  refine ⟨hcut, le_antisymm (worstRatio_fillCut_le h.caps t) (not_lt.mp fun hlt => ?_)⟩
  -- were the worst ratio smaller, the fill would be the same one limit below
  have hbelow := cuts_fillCut_of_worst h.caps hcut (Nat.sub_le t 1) (Nat.le_sub_one_of_lt hlt)
  rcases bisect_fails_before (Nat.zero_le _) hfuel with hzero | hfails
  · rw [← ht] at hzero
    omega
  · rw [← ht] at hfails
    exact of_decide_eq_false hfails hbelow

/-- **When the limit is the best one**: when the greedy fill succeeds at every limit from the best
one on that the search looks at. -/
theorem bisect_eq_bestRatio_iff (h : WorkRequest request k) :
    bisect (fillFits request k) 64 0
        (workBefore request.packetWorkUnits request.packetCount.toNat * ratioScale) =
      bestRatio request k ↔
    ∀ m, m ∈ midpoints (bestRatio request k) 64 0
        (workBefore request.packetWorkUnits request.packetCount.toNat * ratioScale) →
      bestRatio request k ≤ m → Cuts (fillCut request k m) k request.packetCount.toNat := by
  obtain ⟨hcut, hworst⟩ := worstRatio_bisect h rfl
  have hbest := bestRatio_le hcut
  rw [hworst] at hbest
  rw [bisect_eq_iff (Nat.zero_le _) (le_trans hbest (bisect_mem (Nat.zero_le _)).2) h.total]
  constructor
  · intro hall m hm hle
    have htest := hall m hm
    rw [decide_eq_true hle] at htest
    exact of_decide_eq_true htest
  · intro hall m hm
    by_cases hle : bestRatio request k ≤ m
    · rw [decide_eq_true hle]
      exact decide_eq_true (hall m hm hle)
    · rw [decide_eq_false hle]
      -- a fill below the best ratio would be a cut that is better than the best
      refine decide_eq_false fun hless => hle ?_
      exact le_trans (bestRatio_le hless) (worstRatio_fillCut_le h.caps m)

end

/-! ### Optimal partitions -/

/-- The planner as it is meant: it returns one nonempty range for each slot, in order, over all the
packets, and no other cut of the packets has a smaller worst ratio. -/
def BuildsOptimal (request : PartitionRequest) (partitionCount : UInt32) : Prop :=
  let k := partitionCount.toNat
  let n := request.packetCount.toNat
  ∃ (partitions : List Partition) (maxPackets : UInt32) (cut : ℕ → ℕ),
    (buildMinimaxWorkPartitions request partitionCount :
      Planning (Option (List Partition × UInt32))) = Except.ok (some (partitions, maxPackets)) ∧
    Partitioned partitions cut k n ∧
    ∀ cut', Cuts cut' k n → worstRatio request cut k ≤ worstRatio request cut' k

/-- The planner always succeeds, at the limit that the search finds. -/
theorem buildMinimaxWorkPartitions_ok {request : PartitionRequest} {partitionCount : UInt32}
    (h : WorkRequest request partitionCount.toNat) :
    ∃ (partitions : List Partition) (maxPackets : UInt32),
      (buildMinimaxWorkPartitions request partitionCount :
        Planning (Option (List Partition × UInt32))) =
          Except.ok (some (partitions, maxPackets)) ∧
      Partitioned partitions (fillCut request partitionCount.toNat
        (bisect (fillFits request partitionCount.toNat) 64 0
          (workBefore request.packetWorkUnits request.packetCount.toNat * ratioScale)))
        partitionCount.toNat request.packetCount.toNat ∧
      maxPackets.toNat = widestPart (fillCut request partitionCount.toNat
        (bisect (fillFits request partitionCount.toNat) 64 0
          (workBefore request.packetWorkUnits request.packetCount.toNat * ratioScale)))
        partitionCount.toNat := by
  obtain ⟨hcut, -⟩ := worstRatio_bisect h rfl
  obtain ⟨result, hrun, partitions, maxPackets, rfl, hpart, hwidest⟩ := Ends.returns
    (ends_buildMinimaxWorkPartitions (ε := Built) (E := fun _ => False) h rfl hcut)
  exact ⟨partitions, maxPackets, hrun, hpart, hwidest⟩

/-- The partitions are optimal exactly when the limit is. -/
theorem buildsOptimal_iff_limit {request : PartitionRequest} {partitionCount : UInt32}
    (h : WorkRequest request partitionCount.toNat) :
    BuildsOptimal request partitionCount ↔
      bisect (fillFits request partitionCount.toNat) 64 0
          (workBefore request.packetWorkUnits request.packetCount.toNat * ratioScale) =
        bestRatio request partitionCount.toNat := by
  obtain ⟨hcut, hworst⟩ := worstRatio_bisect h rfl
  obtain ⟨partitions, maxPackets, hrun, hpart, -⟩ := buildMinimaxWorkPartitions_ok h
  have hbest := bestRatio_le hcut
  constructor
  · rintro ⟨partitions', maxPackets', cut, hrun', hpart', hopt⟩
    rw [hrun] at hrun'
    obtain ⟨rfl, -⟩ := Prod.mk.inj (Option.some.inj (Except.ok.inj hrun'))
    obtain ⟨best, hbestCut, heq⟩ := exists_bestRatio h.slots_pos h.slots_le
    have hle := hopt best hbestCut
    rw [worstRatio_congr fun i hi => hpart'.unique hpart hi, hworst, heq] at hle
    rw [hworst] at hbest
    exact le_antisymm hle hbest
  · intro heq
    refine ⟨partitions, maxPackets, _, hrun, hpart, fun cut' hcut' => ?_⟩
    rw [hworst, heq]
    exact bestRatio_le hcut'

/-- **Capacity-weighted work partitioning**: it always succeeds, with nonempty consecutive
partitions over all packets, one for each slot.  They have the least worst ratio exactly when the
greedy fill succeeds at every limit from the least worst ratio on that the search looks at on its
way there. -/
theorem buildsOptimal_iff {request : PartitionRequest} {partitionCount : UInt32}
    (h : WorkRequest request partitionCount.toNat) :
    let k := partitionCount.toNat
    let n := request.packetCount.toNat
    (∃ (partitions : List Partition) (maxPackets : UInt32) (cut : ℕ → ℕ),
      (buildMinimaxWorkPartitions request partitionCount :
        Planning (Option (List Partition × UInt32))) =
          Except.ok (some (partitions, maxPackets)) ∧ Partitioned partitions cut k n) ∧
    (BuildsOptimal request partitionCount ↔
      ∀ m, m ∈ midpoints (bestRatio request k) 64 0
          (workBefore request.packetWorkUnits n * ratioScale) →
        bestRatio request k ≤ m → Cuts (fillCut request k m) k n) := by
  obtain ⟨partitions, maxPackets, hrun, hpart, -⟩ := buildMinimaxWorkPartitions_ok h
  refine ⟨⟨partitions, maxPackets, _, hrun, hpart⟩, ?_⟩
  rw [buildsOptimal_iff_limit h]
  exact bisect_eq_bestRatio_iff h

/-- Capacities that do not grow along the slots let the greedy fill through at every limit from the
best ratio on. -/
theorem cuts_fillCut_of_antitone {request : PartitionRequest} {k m : ℕ} (h : WorkRequest request k)
    (hcaps : ∀ i s, i ≤ s → s < k → slotCapacity request s ≤ slotCapacity request i)
    (hm : bestRatio request k ≤ m) :
    Cuts (fillCut request k m) k request.packetCount.toNat := by
  obtain ⟨cut, hcut, hbest⟩ := exists_bestRatio h.slots_pos h.slots_le
  apply cuts_greedyCut_of_fits (monotone_workBefore _) hcut ((worstRatio_le_iff h.caps).mp hbest.le)
  intro i s his hs
  exact Nat.div_le_div_right (Nat.mul_le_mul hm (hcaps i s his hs))

/-- A heavy packet before a light one, on three workers of which the second is slow. -/
def skewedRequest : PartitionRequest :=
  { packetCount := 4, executionWidth := 3, packetWorkUnits := [1, 1, 100, 1],
    workerCapacityMilli := [1000, 1, 1000], trustWorkerCapacity := true }

theorem workRequest_skewed : WorkRequest skewedRequest 3 :=
  ⟨rfl, by unfold HasCapacities; decide, by decide, by decide, by decide⟩

/-- Two equal workers. -/
def evenRequest : PartitionRequest :=
  { packetCount := 3, executionWidth := 2, packetWorkUnits := [2, 1, 1],
    workerCapacityMilli := [1000, 1000], trustWorkerCapacity := true }

theorem buildsOptimal_iff_even : BuildsOptimal evenRequest 2 := by
  have h : WorkRequest evenRequest (2 : UInt32).toNat :=
    ⟨rfl, by unfold HasCapacities; decide, by decide, by decide, by decide⟩
  refine (buildsOptimal_iff h).2.mpr fun m _ hm => cuts_fillCut_of_antitone h ?_ hm
  intro i s his hs
  have hsame : ∀ slot, slot < 2 → slotCapacity evenRequest slot = 1000 := by decide
  rw [hsame s hs, hsame i (lt_of_le_of_lt his hs)]

/-- The planner gives the slow worker the heavy packet; giving it one light packet is a hundred
times better. -/
theorem not_buildsOptimal_skewed : ¬ BuildsOptimal skewedRequest 3 := by
  have hlimit : bisect (fillFits skewedRequest 3) 64 0
      (workBefore skewedRequest.packetWorkUnits skewedRequest.packetCount.toNat * ratioScale) =
        100000000 := by decide
  have hcut : Cuts (fun i => if i = 3 then 4 else i) 3 skewedRequest.packetCount.toNat := by decide
  have hratio : worstRatio skewedRequest (fun i => if i = 3 then 4 else i) 3 = 1000000 := by
    decide
  have hbetter := bestRatio_le hcut
  rw [hratio] at hbetter
  intro hopt
  have hbest : bestRatio skewedRequest 3 = 100000000 :=
    ((buildsOptimal_iff_limit workRequest_skewed).mp hopt).symm.trans hlimit
  rw [hbest] at hbetter
  exact absurd hbetter (by decide)

end RunD.Planner
