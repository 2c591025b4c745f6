/-
What a build of the fixed binary tree announces, and what it writes.

The counts come from a loop over the levels alone, the records from a loop over
the pairs of every level, and the checks of a finished graph know neither loop.
The node count admits exactly the slot counts whose nodes fit 32 bits; for those
no counter of the nested loops wraps (`storeTree_eq`), every record lands at its
own index, and the slots are written once each, in order.
-/
import RunD.FoldTreeAccept

namespace RunD

/-! ### Loops that step by two -/

section Pairs

variable {ε σ : Type}

/-- `for (u32 pair = 0; pair < n; pair += 2) s = step(pair, s)`, from `pair` on. -/
def forPairs (n : UInt32) (step : UInt32 → σ → Checked ε σ) : Nat → UInt32 → σ → Checked ε σ
  | 0, _, s => pure s
  | fuel + 1, pair, s =>
      if pair < n then do
        let s ← step pair s
        forPairs n step fuel (pair + 2) s
      else pure s

variable {n : UInt32} (hn : n.toNat + 1 < 2 ^ 32) (step : UInt32 → σ → Checked ε σ)
include hn

/-- The first `k` turns and the loop from there on are the whole loop. -/
theorem forPairs_rest {fuel k : Nat} (hk : k ≤ (n.toNat + 1) / 2)
    (hfuel : (n.toNat + 1) / 2 - k ≤ fuel) (s : σ) :
    (forRange k (fun i => step (UInt32.ofNat (2 * i))) s >>=
        forPairs n step fuel (UInt32.ofNat (2 * k))) =
      forRange ((n.toNat + 1) / 2) (fun i => step (UInt32.ofNat (2 * i))) s := by
  have hpair : (UInt32.ofNat (2 * k)).toNat = 2 * k := toNat_ofNat_of_lt (by omega)
  induction fuel generalizing k with
  | zero =>
      obtain rfl : k = (n.toNat + 1) / 2 := by omega
      exact bind_pure _
  | succ fuel ih =>
      rcases Nat.lt_or_ge k ((n.toNat + 1) / 2) with hlt | hge
      · have hturn : UInt32.ofNat (2 * k) < n := by
          rw [UInt32.lt_iff_toNat_lt, hpair]
          omega
        have hnext : UInt32.ofNat (2 * k) + 2 = UInt32.ofNat (2 * (k + 1)) := by
          rw [Nat.mul_succ, UInt32.ofNat_add]
          rfl
        rw [← ih hlt (by omega) (toNat_ofNat_of_lt (by omega)), forRange_succ, bind_assoc]
        refine congrArg _ (funext fun t => ?_)
        rw [forPairs, if_pos hturn, hnext]
      · -- the counter has reached the end
        obtain rfl : k = (n.toNat + 1) / 2 := Nat.le_antisymm hk hge
        have hstop : ¬ UInt32.ofNat (2 * ((n.toNat + 1) / 2)) < n := by
          rw [UInt32.lt_iff_toNat_lt, hpair]
          omega
        conv_rhs => rw [← bind_pure (forRange _ _ s)]
        refine congrArg _ (funext fun t => ?_)
        rw [forPairs, if_neg hstop]

/-- **A counter that steps by two counts the pairs** when it cannot wrap. -/
theorem forPairs_eq {fuel : Nat} (hfuel : (n.toNat + 1) / 2 ≤ fuel) (s : σ) :
    forPairs n step fuel 0 s =
      forRange ((n.toNat + 1) / 2) (fun i => step (UInt32.ofNat (2 * i))) s :=
  forPairs_rest hn step (Nat.zero_le _) hfuel s

end Pairs

/-! ### The loops that write the tree -/

/-- One turn of the loop over the pairs: `reduction_edges[edge_index++] = edge`. -/
def appendPairCounted (plan : BuildPlan) (cursor : TreeCursor) (pair : UInt32)
    (s : UInt32 × FoldGraph) : Building (UInt32 × FoldGraph) := do
  let edge := treeEdge plan cursor pair
  let edges ← s.2.reductionEdges.assign s.1.toNat edge
  pure (s.1 + 1, s.2.withEdge plan edges edge)

/-- The loop over the levels, with the index of the next edge left by the pairs. -/
def appendLevelsCounted (plan : BuildPlan) : Nat → TreeCursor → FoldGraph → Building FoldGraph
  | 0, _, graph => pure graph
  | fuel + 1, cursor, graph =>
      if cursor.activeCount > 1 then do
        let s ← forPairs cursor.activeCount (appendPairCounted plan cursor)
          cursor.activeCount.toNat 0 (cursor.edgeIndex, graph)
        appendLevelsCounted plan fuel { cursor.next with edgeIndex := s.1 } s.2
      else pure graph

/-- `AppendReductionTree`, with every counter of the source a word of its own. -/
def appendReductionTreeCounted (graph : FoldGraph) (plan : BuildPlan) : Building FoldGraph :=
  appendLevelsCounted plan plan.partitionCount.toNat (TreeCursor.start plan.partitionCount) graph

/-- The index of the next edge counts the pairs that were stored. -/
theorem appendPairs_counted (plan : BuildPlan) (cursor : TreeCursor) (graph : FoldGraph) (k : Nat) :
    forRange k (fun i => appendPairCounted plan cursor (UInt32.ofNat (2 * i)))
        (cursor.edgeIndex, graph) =
      forRange k (appendPair plan cursor) graph >>= fun graph =>
        pure (cursor.edgeIndex + UInt32.ofNat k, graph) := by
  induction k with
  | zero =>
      rw [forRange, forRange, pure_bind]
      show pure (cursor.edgeIndex, graph) = pure (cursor.edgeIndex + 0, graph)
      rw [UInt32.add_zero]
  | succ k ih =>
      rw [forRange_succ, forRange_succ, ih, bind_assoc, bind_assoc]
      refine congrArg _ (funext fun graph => ?_)
      rw [pure_bind, appendPairCounted, appendPair, bind_assoc]
      refine congrArg _ (funext fun edges => ?_)
      rw [pure_bind, UInt32.ofNat_add, ← UInt32.add_assoc]
      rfl

theorem appendLevels_counted (plan : BuildPlan) (fuel : Nat) {cursor : TreeCursor}
    (h : cursor.activeCount.toNat + 1 < 2 ^ 32) (graph : FoldGraph) :
    appendLevelsCounted plan fuel cursor graph = appendLevels plan fuel cursor graph := by
  induction fuel generalizing cursor graph with
  | zero => rfl
  | succ fuel ih =>
      rw [appendLevelsCounted, appendLevels]
      by_cases hactive : cursor.activeCount > 1
      · have hhalf := toNat_half cursor.activeCount h
        have hindex : ({ cursor.next with
            edgeIndex := cursor.edgeIndex + UInt32.ofNat ((cursor.activeCount.toNat + 1) / 2) } :
              TreeCursor) = cursor.next := by
          rw [← hhalf, UInt32.ofNat_toNat]
          rfl
        have hsmall : cursor.next.activeCount.toNat + 1 < 2 ^ 32 := by
          rw [TreeCursor.next, hhalf]
          omega
        simp only [if_pos hactive, hhalf]
        rw [forPairs_eq h _ (by omega), appendPairs_counted, bind_assoc]
        refine congrArg _ (funext fun graph => ?_)
        rw [pure_bind, ← ih hsmall, ← hindex]
      · rw [if_neg hactive, if_neg hactive]

/-- **No counter of the nested loops wraps** for a plan with its counts: they write what the loops
over natural numbers write. -/
theorem appendReductionTree_counted {plan : BuildPlan} (hplan : PlanCounts plan)
    (graph : FoldGraph) :
    appendReductionTreeCounted graph plan = appendReductionTree graph plan :=
  appendLevels_counted plan _ (by have := hplan.fits; simp only [TreeCursor.start]; omega) graph

/-! ### Which slot counts are admitted -/

/-- The guards of the node count refuse exactly the slot counts whose nodes do not fit. -/
theorem nodeCount_ne_zero_iff {n : UInt32} : foldGraphFixedBinaryTreeNodeCount n ≠ 0 ↔
    0 < n.toNat ∧ 2 * n.toNat + treeEdgeCount n.toNat < 2 ^ 32 := by
  constructor
  · intro h
    have hplan : PlanCounts (makePlan n .fixedBinaryTreeHash {} .noGrowth) := planCounts h
    exact ⟨hplan.pos, hplan.fits⟩
  · rintro ⟨hpos, hfits⟩ hzero
    have htwo : (n * 2).toNat = 2 * n.toNat := by
      rw [UInt32.toNat_mul, show (2 : UInt32).toNat = 2 from rfl]
      omega
    have hedges := fixedBinaryTreeEdgeCount_toNat (n := n) (by omega)
    have hrange : ¬ (n = 0 ∨ n > 0xFFFFFFFF / 2) := by
      rintro (rfl | hlarge)
      · exact absurd hpos (by decide)
      · have : 2 ^ 31 - 1 < n.toNat := UInt32.lt_iff_toNat_lt.mp hlarge
        omega
    have htop : (0xFFFFFFFF : UInt32).toNat = 2 ^ 32 - 1 := rfl
    have hroom : ¬ fixedBinaryTreeEdgeCount n > 0xFFFFFFFF - n * 2 := by
      have hle : n * 2 ≤ 0xFFFFFFFF := by
        rw [UInt32.le_iff_toNat_le]
        omega
      rw [gt_iff_lt, UInt32.lt_iff_toNat_lt, UInt32.toNat_sub_of_le _ _ hle]
      omega
    have hsum := congrArg UInt32.toNat hzero
    rw [foldGraphFixedBinaryTreeNodeCount, if_neg hrange, if_neg hroom, UInt32.toNat_add, htwo,
      hedges, UInt32.toNat_zero] at hsum
    omega

/-! ### What was written -/

/-- What a build announces is what it wrote: its three counts are the planned ones and the exact
totals, every node stands at its own index, and the slots of the partitions and of the edges are
all the scratch slots, once each and in order. -/
structure CountsExact (n : UInt32) (build : FoldGraphBuild) (built : FoldGraph) : Prop where
  edges_planned : build.reductionEdgeCount = fixedBinaryTreeEdgeCount n
  nodes_planned : build.nodeCount = foldGraphFixedBinaryTreeNodeCount n
  scratch_planned : build.scratchSlotCount = foldGraphFixedBinaryTreeScratchSlotCount n
  edges_total : build.reductionEdgeCount.toNat = treeEdgeCount n.toNat
  nodes_total : build.nodeCount.toNat = 2 * n.toNat + treeEdgeCount n.toNat
  scratch_total : build.scratchSlotCount.toNat = n.toNat + treeEdgeCount n.toNat
  edges_written : built.reductionEdges.items.length = build.reductionEdgeCount.toNat
  nodes_written : built.nodes.items.map (fun node => node.topologicalIndex.toNat) =
    List.range build.nodeCount.toNat
  slots_written : built.partitionFoldSlots.items.map UInt32.toNat ++
      built.reductionEdges.items.map (fun edge => edge.outputSlot.toNat) =
    List.range build.scratchSlotCount.toNat

section Written

variable {plan : BuildPlan} {graph : FoldGraph} (hplan : PlanCounts plan)
  (hlayout : Layout plan graph)
include hplan hlayout

theorem layout_nodes_written : graph.nodes.items.map (fun node => node.topologicalIndex.toNat) =
    List.range (2 * plan.partitionCount.toNat + treeEdgeCount plan.partitionCount.toNat) := by
  have hfits := hplan.fits
  have hlen : graph.nodes.items.length =
      2 * plan.partitionCount.toNat + treeEdgeCount plan.partitionCount.toNat := by
    rw [hlayout.nodes, List.length_append, length_leafNodes, List.length_mapIdx, length_treeEdges]
  refine List.ext_getElem (by rw [List.length_map, List.length_range, hlen]) fun i hi _ => ?_
  rw [List.length_map] at hi
  rw [List.getElem_map, List.getElem_range]
  have hnode := List.getElem?_eq_getElem hi
  rcases Nat.lt_or_ge i (2 * plan.partitionCount.toNat) with hleaf | htree
  · conv_lhs at hnode => rw [hlayout.nodes]
    rw [List.getElem?_append_left (by rw [length_leafNodes]; exact hleaf),
      getElem?_leafNodes _ hleaf, Option.some.injEq] at hnode
    rw [← hnode]
    exact toNat_ofNat_of_lt (by omega)
  · -- the node of an edge
    obtain ⟨k, rfl⟩ := Nat.exists_eq_add_of_le htree
    obtain ⟨edge, hedge⟩ : ∃ edge, graph.reductionEdges.items[k]? = some edge :=
      ⟨_, List.getElem?_eq_getElem (by rw [hlayout.edges, length_treeEdges]; omega)⟩
    rw [layout_reductionNode hlayout hedge, Option.some.injEq] at hnode
    rw [← hnode]
    exact toNat_ofNat_of_lt (by omega)

theorem layout_slots_written : graph.partitionFoldSlots.items.map UInt32.toNat ++
      graph.reductionEdges.items.map (fun edge => edge.outputSlot.toNat) =
    List.range (plan.partitionCount.toNat + treeEdgeCount plan.partitionCount.toNat) := by
  have hslots := view_slots hplan hlayout
  have houts := view_outputs hplan hlayout le_rfl
  rw [FoldGraphView.slots, view_slots_items hplan hlayout] at hslots
  rw [FoldGraphView.outputs, view_edges hplan hlayout,
    List.take_of_length_le (length_treeEdges _ _ _ _).le] at houts
  rw [hlayout.slots, hlayout.edges, hslots, houts, List.range_add, List.range'_eq_map_range]

end Written

/-! ### Builds -/

/-- The validation result that a report repeats. -/
def FoldGraphBuild.passed (build : FoldGraphBuild) : FoldGraphValidationResult :=
  { ok := true, reason := "pass", scratchSlotCount := build.scratchSlotCount,
    finalSlot := build.finalSlot, dagValidated := true, slotBoundsValidated := true,
    paddingLawValidated := true }

section Build

variable {graph built : FoldGraph} {n : UInt32} {operation : FoldOperation}
  {policy : StrictFloatReductionPolicy} {allocation : AllocationPolicy} {build : FoldGraphBuild}
  (hbuild : buildFoldGraph graph n operation policy allocation = Except.ok (build, built))
include hbuild

/-- The generic validator passes a built graph over every marker array that is long enough, with
the result that the report repeats. -/
theorem validate_built {markers : List UInt64}
    (hle : build.scratchSlotCount.toNat ≤ markers.length) :
    ∃ left, validateFoldGraphWithMarkers (viewFoldGraph built) markers =
      Except.ok (build.passed, left) := by
  obtain ⟨hallowed, rfl, hlayout⟩ := buildFoldGraph_layout hbuild
  obtain ⟨hplan, hlaw⟩ := admitPlan_facts hallowed
  exact accepted_validate (layout_accepted hplan hlayout hlaw) hle

theorem validateFoldGraph_built :
    ∃ left, validateFoldGraph (viewFoldGraph built) = Except.ok (build.passed, left) := by
  have hle : build.scratchSlotCount.toNat ≤
      (List.replicate build.scratchSlotCount.toNat (0 : UInt64)).length :=
    List.length_replicate.ge
  obtain ⟨left, hvalid⟩ := validate_built hbuild hle
  obtain ⟨hallowed, rfl, hlayout⟩ := buildFoldGraph_layout hbuild
  refine ⟨left, ?_⟩
  rw [validateFoldGraph, view_scratchSlotCount (admitPlan_facts hallowed).1 hlayout, ok_bind]
  exact hvalid

theorem countsExact_built : CountsExact n build built := by
  obtain ⟨hallowed, rfl, hlayout⟩ := buildFoldGraph_layout hbuild
  obtain ⟨hplan, -⟩ := admitPlan_facts hallowed
  have hfits := hplan.fits
  have hnodes := layout_nodes_written hplan hlayout
  have hedges : built.reductionEdges.items.length = treeEdgeCount n.toNat := by
    rw [hlayout.edges, length_treeEdges]
    rfl
  have hnodeCount : (UInt32.ofNat built.nodes.items.length).toNat =
      2 * n.toNat + treeEdgeCount n.toNat := by
    rw [← List.length_map (fun node : FoldGraphNode => node.topologicalIndex.toNat), hnodes,
      List.length_range]
    exact toNat_ofNat_of_lt hfits
  have hedgeCount : (UInt32.ofNat built.reductionEdges.items.length).toNat =
      treeEdgeCount n.toNat := by
    rw [hedges]
    exact toNat_ofNat_of_lt (lt_of_le_of_lt (Nat.le_add_left _ _) hfits)
  exact
    { edges_planned := UInt32.toNat_inj.mp (hedgeCount.trans hplan.edges.symm)
      nodes_planned := UInt32.toNat_inj.mp (hnodeCount.trans hplan.nodes.symm)
      scratch_planned := rfl
      edges_total := hedgeCount
      nodes_total := hnodeCount
      scratch_total := hplan.scratch
      edges_written := hedges.trans hedgeCount.symm
      nodes_written := hnodes.trans (congrArg List.range hnodeCount.symm)
      slots_written := (layout_slots_written hplan hlayout).trans
        (congrArg List.range hplan.scratch.symm) }

end Build

/-- **Every built graph passes the generic validator, with the counts it was announced with.**
The node count admits the slot counts whose nodes fit 32 bits; the checks before a build are all
that can refuse it; and of a graph that was built no counter has wrapped, both validators return
the result of the report, and the announced counts are the numbers of records written. -/
theorem buildFoldGraph_validated (graph : FoldGraph) (n : UInt32) (operation : FoldOperation)
    (policy : StrictFloatReductionPolicy) (allocation : AllocationPolicy) :
    (foldGraphFixedBinaryTreeNodeCount n ≠ 0 ↔
      0 < n.toNat ∧ 2 * n.toNat + treeEdgeCount n.toNat < 2 ^ 32) ∧
    (admitPlan graph (makePlan n operation policy allocation) = Except.ok () ↔
      ∃ build built, buildFoldGraph graph n operation policy allocation =
        Except.ok (build, built)) ∧
    ∀ build built, buildFoldGraph graph n operation policy allocation = Except.ok (build, built) →
      (∀ before, appendReductionTreeCounted before (makePlan n operation policy allocation) =
        appendReductionTree before (makePlan n operation policy allocation)) ∧
      (∃ left, validateFoldGraph (viewFoldGraph built) = Except.ok (build.passed, left)) ∧
      (∀ markers : List UInt64, build.scratchSlotCount.toNat ≤ markers.length →
        ∃ left, validateFoldGraphWithMarkers (viewFoldGraph built) markers =
          Except.ok (build.passed, left)) ∧
      CountsExact n build built := by
  refine ⟨nodeCount_ne_zero_iff, ⟨fun hallowed => ?_, ?_⟩, fun build built hbuild => ?_⟩
  · obtain ⟨build, built, hbuild, -⟩ := buildFoldGraph_returns hallowed
    exact ⟨build, built, hbuild⟩
  · rintro ⟨build, built, hbuild⟩
    exact (buildFoldGraph_layout hbuild).1
  · obtain ⟨hplan, -⟩ := admitPlan_facts (buildFoldGraph_layout hbuild).1
    exact ⟨appendReductionTree_counted hplan, validateFoldGraph_built hbuild,
      fun _ hle => validate_built hbuild hle, countsExact_built hbuild⟩

/-- Five slots: the levels have three, two and one pairs. -/
theorem buildFoldGraph_validated_five :
    ∃ build built left,
      buildFoldGraph {} 5 .saturatingAdd {} .allowGrowth = Except.ok (build, built) ∧
      validateFoldGraph (viewFoldGraph built) = Except.ok (build.passed, left) ∧
      built.reductionEdges.items.length = 6 ∧ build.nodeCount = 16 ∧
      build.scratchSlotCount = 11 := by
  obtain ⟨-, hadmits, hbuilt⟩ := buildFoldGraph_validated {} 5 .saturatingAdd {} .allowGrowth
  obtain ⟨build, built, hbuild⟩ := hadmits.mp (by decide)
  obtain ⟨-, ⟨left, hleft⟩, -, hcounts⟩ := hbuilt build built hbuild
  refine ⟨build, built, left, hbuild, hleft, ?_, ?_, ?_⟩
  · rw [hcounts.edges_written, hcounts.edges_planned]
    rfl
  · rw [hcounts.nodes_planned]
    rfl
  · rw [hcounts.scratch_planned]
    rfl

end RunD
