/-
Capacity-weighted partitioning of a request.

`buildCapacityWeightedPartitions` checks the capacities and the trust in them and
then deals out packets, when the request has their work, or else units.  With
units the builder succeeds with the partitions of a cut exactly when the unit
planner gives every slot a unit, that is, when the first slots do not take all
the units at a limit at which another slot gets none
(`buildsCapacityWeighted_iff`).
-/
import RunD.BalancedPlan
import RunD.CapacityUnits
import RunD.CapacityWork

namespace RunD.Planner

/-! ### The builder -/

section
variable {ε : Type}

/-- `ValidCapacities`. -/
def validCapacities (request : PartitionRequest) : Checked ε Bool :=
  if request.intent ≠ .staticWidth ∨
      request.workerCapacityMilli.length < request.executionWidth.toNat then pure false
  else
    call do
      let _ ← forRange request.executionWidth.toNat (fun index (_ : Unit) => do
        let capacity ← fetch request.workerCapacityMilli index
        require (capacity ≠ 0) false) ()
      pure true

/-- `HasPacketWorkUnits`. -/
def hasPacketWorkUnits (request : PartitionRequest) : Prop :=
  request.packetWorkUnits.length = request.packetCount.toNat

instance (request : PartitionRequest) : Decidable (hasPacketWorkUnits request) :=
  inferInstanceAs (Decidable (_ = _))

/-- The variables of the loop that turns widths into partitions. -/
structure UnitPartitions where
  unitBegin : UInt32 := 0
  maxPackets : UInt32 := 0
  outPartitions : List Partition

/-- One turn of the loop that turns widths into partitions: the width of a slot is read from its
entry, which is then overwritten. -/
def placeWidth (alignment : UInt32) (slot : ℕ) (state : UnitPartitions) :
    Checked ε UnitPartitions := do
  let width ← fetch state.outPartitions slot
  let unitEnd := state.unitBegin + width.end
  let start := state.unitBegin * alignment
  let stop := unitEnd * alignment
  let outPartitions ← assign state.outPartitions slot
    { workerIndex := UInt32.ofNat slot, «begin» := start, «end» := stop }
  pure { unitBegin := unitEnd, maxPackets := max state.maxPackets (stop - start),
         outPartitions := outPartitions }

end

/-- The build of the capacity-weighted builder. -/
def capacityBuild (projection : PartitionProjection) (outPartitions : List Partition)
    (alignment maxPackets : UInt32) : PartitionBuild :=
  { ok := true, reason := "pass", partitionCount := UInt32.ofNat outPartitions.length,
    alignmentPackets := alignment, packetsPerPartitionMax := maxPackets,
    workerSlotCount := projection.workerSlotCount, foldSlotCount := projection.foldSlotCount,
    usefulWidth := projection.usefulWidth, placement := .capacityWeightedStatic }

/-- `BuildCapacityWeightedPartitions`. -/
def buildCapacityWeightedPartitions (request : PartitionRequest) : Planning Built := do
  let projection := projectPartitions request
  require (projection.ok = true)
    (failProjectedPartitionBuild projection projection.reason, [])
  let partitionCount := projection.partitionCount
  let valid ← validCapacities request
  require (valid = true) (failProjectedPartitionBuild projection "invalid_worker_capacity", [])
  require (request.trustWorkerCapacity = true)
    (failProjectedPartitionBuild projection "untrusted_worker_capacity", [])
  require (request.packetWorkUnits = [] ∨ validPacketWorkUnits request.packetWorkUnits request)
    (failProjectedPartitionBuild projection "invalid_packet_work_units", [])
  let alignment := projection.alignmentPackets
  let partitionUnits := resolvePartitionUnits request.packetCount alignment
  if hasPacketWorkUnits request then do
    let built ← buildMinimaxWorkPartitions request partitionCount
    match built with
    | none => pure (failProjectedPartitionBuild projection "capacity_minimax_failed", [])
    | some (outPartitions, maxPackets) =>
        pure (capacityBuild projection outPartitions 1 maxPackets, outPartitions)
  else do
    let widths ← buildMinimaxUnitWidths request partitionCount partitionUnits
    match widths with
    | none => pure (failProjectedPartitionBuild projection "capacity_minimax_failed", [])
    | some widths => do
        let placed ← forRange partitionCount.toNat (placeWidth alignment)
          { outPartitions := widths }
        pure (capacityBuild projection placed.outPartitions alignment placed.maxPackets,
          placed.outPartitions)

/-! ### Trusted requests -/

/-- A request that is admitted, has a nonzero capacity for each of its workers, and is trusted. -/
structure TrustedRequest (request : PartitionRequest) : Prop where
  admitted : (projectPartitions request).ok = true
  capacities : request.executionWidth.toNat ≤ request.workerCapacityMilli.length
  nonzero : ∀ (worker : ℕ) (capacity : UInt32), worker < request.executionWidth.toNat →
    request.workerCapacityMilli[worker]? = some capacity → capacity ≠ 0
  trusted : request.trustWorkerCapacity = true

section
variable {ε : Type} {E : ε → Prop} {request : PartitionRequest}

theorem ends_validCapacities (h : TrustedRequest request) :
    Ends (validCapacities request) (fun valid => valid = true) E := by
  have hno : ¬ (request.intent ≠ .staticWidth ∨
      request.workerCapacityMilli.length < request.executionWidth.toNat) := by
    rintro (hintent | hshort)
    · cases hcase : request.intent
      exact hintent hcase
    · exact absurd h.capacities (not_le.mpr hshort)
  rw [validCapacities, if_neg hno]
  apply Ends.call
  refine Ends.bind (ends_forRange (fun _ _ => True) trivial ?_) fun _ _ => ends_pure rfl
  intro index _ hindex _
  obtain ⟨capacity, hget⟩ : ∃ capacity, request.workerCapacityMilli[index]? = some capacity :=
    ⟨_, List.getElem?_eq_getElem (lt_of_lt_of_le hindex h.capacities)⟩
  rw [fetch_of_lt hget, ok_bind, require_of_holds (h.nonzero index capacity hindex hget)]
  exact ends_pure trivial

/-- There is a worker for each slot. -/
theorem TrustedRequest.hasCapacities (h : TrustedRequest request) :
    HasCapacities request (projectPartitions request).partitionCount.toNat := by
  have hp := projected h.admitted
  intro slot hslot
  have hwidth : slot < request.executionWidth.toNat := lt_of_lt_of_le hslot hp.count_le_width
  have hmod : slot % (max 1 request.executionWidth).toNat = slot := by
    apply Nat.mod_eq_of_lt
    rw [toNat_max]
    exact lt_of_lt_of_le hwidth (le_max_right _ _)
  have hin : slot < request.workerCapacityMilli.length := lt_of_lt_of_le hwidth h.capacities
  obtain ⟨capacity, hget⟩ : ∃ capacity, request.workerCapacityMilli[slot]? = some capacity :=
    ⟨_, List.getElem?_eq_getElem hin⟩
  rw [slotCapacity, hmod]
  refine ⟨hin, ?_⟩
  rw [List.getD_eq_getElem?_getD, hget]
  exact toNat_pos_of_ne_zero (h.nonzero slot capacity hwidth hget)

/-! ### From widths to partitions -/

/-- **The loop over the widths** places the parts of their cut, scaled by the alignment. -/
theorem ends_placeWidths {widths : List Partition} {count alignment units : UInt32}
    (hlength : widths.length = count.toNat)
    (hsum : cutOfWidths (widthAt widths) count.toNat = units.toNat)
    (hfits : units.toNat * alignment.toNat < 2 ^ 32) :
    Ends (forRange count.toNat (placeWidth alignment) { outPartitions := widths })
      (fun placed => placed.outPartitions.length = count.toNat ∧
        PartsUpTo (fun i => cutOfWidths (widthAt widths) i * alignment.toNat) count.toNat
          placed.outPartitions ∧
        placed.maxPackets.toNat =
          widestPart (fun i => cutOfWidths (widthAt widths) i * alignment.toNat) count.toNat)
      E := by
  -- before a slot, the entries from it on still hold their widths
  refine Ends.mono_post (ends_forRange (fun i (state : UnitPartitions) =>
    state.unitBegin.toNat = cutOfWidths (widthAt widths) i ∧
      state.outPartitions.length = count.toNat ∧
      (∀ slot, i ≤ slot → state.outPartitions[slot]? = widths[slot]?) ∧
      PartsUpTo (fun i => cutOfWidths (widthAt widths) i * alignment.toNat) i
        state.outPartitions ∧
      state.maxPackets.toNat =
        widestPart (fun i => cutOfWidths (widthAt widths) i * alignment.toNat) i)
    ⟨rfl, hlength, fun _ _ => rfl, partsUpTo_zero _ _, rfl⟩ ?_) ?_
  · rintro slot state hslot ⟨hbegin, hkept, hlater, hparts, hwidest⟩
    obtain ⟨width, hget⟩ : ∃ width, widths[slot]? = some width :=
      ⟨_, List.getElem?_eq_getElem (by rw [hlength]; exact hslot)⟩
    have hin : slot < state.outPartitions.length := by rw [hkept]; exact hslot
    have hle : cutOfWidths (widthAt widths) (slot + 1) ≤ units.toNat := by
      rw [← hsum]
      exact cutOfWidths_mono _ hslot
    have hsucc := cutOfWidths_succ (widthAt widths) slot
    have hunits := units.toNat_lt
    have hend : (state.unitBegin + width.end).toNat =
        cutOfWidths (widthAt widths) (slot + 1) := by
      have hnext : state.unitBegin.toNat + width.end.toNat =
          cutOfWidths (widthAt widths) (slot + 1) := by
        rw [hbegin, ← widthAt_of_get hget, hsucc]
      rw [toNat_add_fits, hnext]
      rw [hnext]
      exact lt_of_le_of_lt hle hunits
    have hscale : ∀ {place : UInt32}, place.toNat ≤ units.toNat →
        (place * alignment).toNat = place.toNat * alignment.toNat := fun hplace =>
      toNat_mul_fits (lt_of_le_of_lt (Nat.mul_le_mul_right _ hplace) hfits)
    have hstart : (state.unitBegin * alignment).toNat =
        cutOfWidths (widthAt widths) slot * alignment.toNat := by
      rw [hscale (by rw [hbegin]; omega), hbegin]
    have hstop : ((state.unitBegin + width.end) * alignment).toNat =
        cutOfWidths (widthAt widths) (slot + 1) * alignment.toNat := by
      rw [hscale (by rw [hend]; exact hle), hend]
    rw [placeWidth, fetch_of_lt (by rw [hlater slot (le_refl _)]; exact hget), ok_bind]
    dsimp only
    rw [assign_of_lt hin, ok_bind]
    refine ends_pure ⟨hend, ?_, fun s hs => ?_,
      hparts.set hin (toNat_ofNat_lt (hslot.trans count.toNat_lt)) hstart hstop, ?_⟩
    · rw [List.length_set, hkept]
    · rw [List.getElem?_set_ne (Nat.ne_of_lt hs)]
      exact hlater s (Nat.le_of_succ_le hs)
    · dsimp only
      rw [toNat_max, UInt32.toNat_sub_of_le, hstart, hstop, hwidest, widestPart_succ]
      rw [UInt32.le_iff_toNat_le, hstart, hstop]
      exact Nat.mul_le_mul_right _ (cutOfWidths_mono _ (Nat.le_succ slot))
  · rintro placed ⟨-, hkept, -, hparts, hwidest⟩
    exact ⟨hkept, hparts, hwidest⟩

end

/-! ### Capacity-weighted uniform partitioning -/

/-- Capacity-weighted partitioning as it is meant: it succeeds with one nonempty range for each
slot, in order, over all the packets. -/
def BuildsCapacityWeighted (request : PartitionRequest) : Prop :=
  ∃ (build : PartitionBuild) (partitions : List Partition) (cut : ℕ → ℕ),
    buildCapacityWeightedPartitions request = Except.ok (build, partitions) ∧
      build.ok = true ∧
      Partitioned partitions cut (projectPartitions request).partitionCount.toNat
        request.packetCount.toNat

/-- The first slots of a request take all its units at the largest limit at which another slot gets
none. -/
def Starves (request : PartitionRequest) : Prop :=
  LeadersTakeAll request (projectPartitions request).partitionCount.toNat
    (resolvePartitionUnits request.packetCount
      (projectPartitions request).alignmentPackets).toNat
    (starvingLimit request (projectPartitions request).partitionCount.toNat)

instance (request : PartitionRequest) : Decidable (Starves request) :=
  inferInstanceAs (Decidable (LeadersTakeAll _ _ _ _))

/-- The builder without packet works is the unit planner and the loop over its widths. -/
theorem buildCapacityWeightedPartitions_units {request : PartitionRequest}
    (h : TrustedRequest request) (huniform : request.packetWorkUnits = []) :
    buildCapacityWeightedPartitions request = (do
      let widths ← buildMinimaxUnitWidths request (projectPartitions request).partitionCount
        (resolvePartitionUnits request.packetCount (projectPartitions request).alignmentPackets)
      match widths with
      | none =>
          pure (failProjectedPartitionBuild (projectPartitions request)
            "capacity_minimax_failed", [])
      | some widths => do
          let placed ← forRange (projectPartitions request).partitionCount.toNat
            (placeWidth (projectPartitions request).alignmentPackets) { outPartitions := widths }
          pure (capacityBuild (projectPartitions request) placed.outPartitions
            (projectPartitions request).alignmentPackets placed.maxPackets,
            placed.outPartitions)) := by
  obtain ⟨valid, hvalid, rfl⟩ :=
    Ends.returns (ends_validCapacities (ε := Built) (E := fun _ => False) h)
  have hno : ¬ hasPacketWorkUnits request := by
    intro hsize
    rw [hasPacketWorkUnits, huniform] at hsize
    have hpos := (projected h.admitted).packets_pos
    rw [← hsize] at hpos
    exact absurd hpos (lt_irrefl 0)
  rw [buildCapacityWeightedPartitions]
  dsimp only
  rw [require_of_holds h.admitted, ok_bind, hvalid, ok_bind, require_of_holds rfl, ok_bind,
    require_of_holds h.trusted, ok_bind, require_of_holds (Or.inl huniform), ok_bind, if_neg hno]

/-- **What the builder does** without packet works: it fails when a slot starves, and otherwise
returns the partitions of a cut. -/
theorem ends_buildCapacityWeightedUnits {request : PartitionRequest} (h : TrustedRequest request)
    (huniform : request.packetWorkUnits = []) {E : Built → Prop} :
    Ends (buildCapacityWeightedPartitions request)
      (fun built => (Starves request → built.1.ok = false) ∧
        (¬ Starves request → built.1.ok = true ∧
          ∃ cut, Partitioned built.2 cut (projectPartitions request).partitionCount.toNat
            request.packetCount.toNat)) E := by
  have hp := projected h.admitted
  obtain ⟨limit, hleast, hwidths⟩ :=
    ends_buildMinimaxUnitWidths (ε := Built) (E := E) h.hasCapacities hp.count_pos
      hp.count_le_units
  have hstarves := all_unitsAt_pos_iff_leaders hp.count_pos h.hasCapacities hleast
  rw [buildCapacityWeightedPartitions_units h huniform]
  refine Ends.bind hwidths fun result hresult => ?_
  by_cases hall : ∀ slot, slot < (projectPartitions request).partitionCount.toNat →
      0 < unitsAt request limit slot
  · obtain ⟨widths, rfl, hlength, hpos, hsum⟩ := hresult.given hall
    refine Ends.bind (ends_placeWidths hlength hsum hp.units_fit) fun placed hplaced => ?_
    obtain ⟨hkept, hparts, -⟩ := hplaced
    have hcut := (cuts_cutOfWidths hpos).scale hp.alignment_pos
    rw [hsum, hp.units_mul] at hcut
    exact ends_pure ⟨fun hbad => absurd hbad (hstarves.mp hall),
      fun _ => ⟨rfl, _, ⟨hcut, hkept, hparts⟩⟩⟩
  · have hsome : ∃ slot, slot < (projectPartitions request).partitionCount.toNat ∧
        unitsAt request limit slot = 0 := by
      push Not at hall
      obtain ⟨slot, hslot, hzero⟩ := hall
      exact ⟨slot, hslot, Nat.le_zero.mp hzero⟩
    rw [hresult.starved hsome]
    exact ends_pure ⟨fun _ => rfl, fun hgood => absurd (hstarves.mpr hgood) hall⟩

/-- **Capacity-weighted uniform partitioning**: a trusted request without packet works is dealt out
in full, with a nonempty range for each slot, exactly when no slot starves. -/
theorem buildsCapacityWeighted_iff {request : PartitionRequest} (h : TrustedRequest request)
    (huniform : request.packetWorkUnits = []) :
    BuildsCapacityWeighted request ↔ ¬ Starves request := by
  obtain ⟨⟨build, partitions⟩, hrun, hbad, hgood⟩ :=
    Ends.returns (ends_buildCapacityWeightedUnits h huniform (E := fun _ => False))
  constructor
  · rintro ⟨build', partitions', cut, hrun', hok, -⟩ hstarves
    rw [hrun] at hrun'
    obtain ⟨rfl, -⟩ := Prod.mk.inj (Except.ok.inj hrun')
    rw [hbad hstarves] at hok
    exact Bool.noConfusion hok
  · intro hno
    obtain ⟨hok, cut, hpart⟩ := hgood hno
    exact ⟨build, partitions, cut, hrun, hok, hpart⟩

/-- A worker with a million times the capacity of the next. -/
def starvingRequest : PartitionRequest :=
  { packetCount := 2, executionWidth := 2, workerCapacityMilli := [1000000, 1],
    trustWorkerCapacity := true }

theorem trusted_starving : TrustedRequest starvingRequest := by
  refine ⟨by decide, by decide, ?_, rfl⟩
  intro worker capacity hworker hget
  have hcases : ∀ worker, worker < 2 →
      starvingRequest.workerCapacityMilli[worker]? ≠ some 0 := by decide
  rintro rfl
  exact hcases worker hworker hget

/-- Five packets for two workers, the second twice as fast as the first. -/
def pairRequest : PartitionRequest :=
  { packetCount := 5, executionWidth := 2, workerCapacityMilli := [1000, 2000],
    trustWorkerCapacity := true }

theorem trusted_pair : TrustedRequest pairRequest := by
  refine ⟨by decide, by decide, ?_, rfl⟩
  intro worker capacity hworker hget
  have hcases : ∀ worker, worker < 2 →
      pairRequest.workerCapacityMilli[worker]? ≠ some 0 := by decide
  rintro rfl
  exact hcases worker hworker hget

theorem buildsCapacityWeighted_pair : BuildsCapacityWeighted pairRequest :=
  (buildsCapacityWeighted_iff trusted_pair rfl).mpr (by decide)

/-- The fast worker takes both packets at every limit that leaves the slow one none, so that the
builder gives up. -/
theorem not_buildsCapacityWeighted_starving : ¬ BuildsCapacityWeighted starvingRequest := by
  obtain ⟨⟨build, partitions⟩, hrun, hbad, -⟩ :=
    Ends.returns (ends_buildCapacityWeightedUnits trusted_starving rfl (E := fun _ => False))
  have hstarves : Starves starvingRequest := by decide
  rintro ⟨build', partitions', cut, hrun', hok, -⟩
  rw [hrun] at hrun'
  obtain ⟨rfl, -⟩ := Prod.mk.inj (Except.ok.inj hrun')
  rw [hbad hstarves] at hok
  exact Bool.noConfusion hok

end RunD.Planner
