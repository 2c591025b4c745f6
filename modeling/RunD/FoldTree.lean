/-
The layout of the fixed binary tree, and that a build produces it.

A level is described by three natural numbers: its number, the slot it starts
at, and how many slots are active in it.  Its outputs follow it directly, so
the next level starts where it ends, and edge number `j` of the whole tree
writes slot `partitionCount + j` (`treeEdges_spec`).  `treeEdges` is the list of all edges,
`populate_layout` says that the loops of the builder write exactly that list,
and nothing of the 32-bit arithmetic wraps for a count the builder admits.
-/
import RunD.FoldBuild

namespace RunD

/-! ### Counting edges -/

/-- The edges of the tree over `n` slots. -/
def treeEdgeCount (n : Nat) : Nat :=
  if 2 ≤ n then (n + 1) / 2 + treeEdgeCount ((n + 1) / 2) else 0
  termination_by n
  decreasing_by omega

theorem treeEdgeCount_of_lt {n : Nat} (h : n < 2) : treeEdgeCount n = 0 := by
  rw [treeEdgeCount, if_neg (by omega)]

theorem treeEdgeCount_of_ge {n : Nat} (h : 2 ≤ n) :
    treeEdgeCount n = (n + 1) / 2 + treeEdgeCount ((n + 1) / 2) := by
  rw [treeEdgeCount, if_pos h]

theorem treeEdgeCount_le (n : Nat) : treeEdgeCount n ≤ 2 * n - 2 := by
  induction n using treeEdgeCount.induct with
  | case1 n h ih =>
      rw [treeEdgeCount_of_ge h]
      omega
  | case2 n h => rw [treeEdgeCount_of_lt (by omega)]; omega

theorem toNat_half (a : UInt32) (h : a.toNat + 1 < 2 ^ 32) :
    ((a + 1) / 2).toNat = (a.toNat + 1) / 2 := by
  rw [UInt32.toNat_div, UInt32.toNat_add, show (1 : UInt32).toNat = 1 from rfl,
    show (2 : UInt32).toNat = 2 from rfl]
  omega

/-- The counting loop counts the edges, given fuel for the active slots and no wrap. -/
theorem edgeCountFrom_toNat (fuel : Nat) (active edges : UInt32) (hfuel : active.toNat ≤ fuel)
    (hbound : edges.toNat + treeEdgeCount active.toNat < 2 ^ 32) (hhalf : active.toNat < 2 ^ 31) :
    (edgeCountFrom fuel active edges).toNat = edges.toNat + treeEdgeCount active.toNat := by
  induction fuel generalizing active edges with
  | zero =>
      rw [edgeCountFrom, treeEdgeCount_of_lt (by omega), Nat.add_zero]
  | succ fuel ih =>
      rw [edgeCountFrom]
      have hone : (1 : UInt32).toNat = 1 := rfl
      by_cases hactive : active > 1
      · have h2 : 2 ≤ active.toNat := by
          have := UInt32.lt_iff_toNat_lt.mp hactive
          omega
        rw [treeEdgeCount_of_ge h2] at hbound ⊢
        have hnext := toNat_half active (by omega)
        have hsum : (edges + (active + 1) / 2).toNat = edges.toNat + (active.toNat + 1) / 2 := by
          rw [UInt32.toNat_add, hnext]
          omega
        rw [if_pos hactive, ih _ _ (by omega) (by rw [hsum, hnext]; omega) (by omega), hsum, hnext]
        omega
      · have h1 : active.toNat < 2 := by
          have := mt UInt32.lt_iff_toNat_lt.mpr hactive
          omega
        rw [if_neg hactive, treeEdgeCount_of_lt h1, Nat.add_zero]

theorem fixedBinaryTreeEdgeCount_toNat {n : UInt32} (h : n.toNat < 2 ^ 31) :
    (fixedBinaryTreeEdgeCount n).toNat = treeEdgeCount n.toNat := by
  have hle := treeEdgeCount_le n.toNat
  have := edgeCountFrom_toNat n.toNat n 0 le_rfl (by simp; omega) h
  rw [fixedBinaryTreeEdgeCount, this]
  simp

/-- The counts of a plan the builder admits, as natural numbers. -/
structure PlanCounts (plan : BuildPlan) : Prop where
  pos : 0 < plan.partitionCount.toNat
  edges : plan.requiredEdges.toNat = treeEdgeCount plan.partitionCount.toNat
  nodes : plan.requiredNodes.toNat =
    2 * plan.partitionCount.toNat + treeEdgeCount plan.partitionCount.toNat
  scratch : plan.requiredScratchSlots.toNat =
    plan.partitionCount.toNat + treeEdgeCount plan.partitionCount.toNat
  fits : 2 * plan.partitionCount.toNat + treeEdgeCount plan.partitionCount.toNat < 2 ^ 32

theorem planCounts {n : UInt32} {operation : FoldOperation} {policy : StrictFloatReductionPolicy}
    {allocation : AllocationPolicy}
    (h : (makePlan n operation policy allocation).requiredNodes ≠ 0) :
    PlanCounts (makePlan n operation policy allocation) := by
  have hnodes : foldGraphFixedBinaryTreeNodeCount n ≠ 0 := h
  have hmax : ((0xFFFFFFFF : UInt32) / 2).toNat = 2 ^ 31 - 1 := rfl
  have htop : (0xFFFFFFFF : UInt32).toNat = 2 ^ 32 - 1 := rfl
  simp only [foldGraphFixedBinaryTreeNodeCount] at hnodes
  split at hnodes
  · exact absurd rfl hnodes
  next hrange =>
  rw [not_or] at hrange
  obtain ⟨hn0, hnle⟩ := hrange
  have hn : n.toNat < 2 ^ 31 := by
    have := mt UInt32.lt_iff_toNat_lt.mpr hnle
    omega
  have hpos : 0 < n.toNat := Nat.pos_of_ne_zero fun h0 => hn0 (UInt32.toNat_inj.mp h0)
  have hedges := fixedBinaryTreeEdgeCount_toNat hn
  have hdouble : (n * 2).toNat = 2 * n.toNat := by
    rw [UInt32.toNat_mul, show (2 : UInt32).toNat = 2 from rfl]
    omega
  split at hnodes
  · exact absurd rfl hnodes
  next hroom =>
  have hle : n * 2 ≤ 0xFFFFFFFF := by
    rw [UInt32.le_iff_toNat_le]
    omega
  have hroom' : treeEdgeCount n.toNat ≤ 2 ^ 32 - 1 - 2 * n.toNat := by
    have := mt UInt32.lt_iff_toNat_lt.mpr hroom
    rw [UInt32.toNat_sub_of_le _ _ hle] at this
    omega
  refine ⟨hpos, hedges, ?_, ?_, ?_⟩
  · show (foldGraphFixedBinaryTreeNodeCount n).toNat = 2 * n.toNat + treeEdgeCount n.toNat
    rw [foldGraphFixedBinaryTreeNodeCount, if_neg (not_or.mpr ⟨hn0, hnle⟩), if_neg hroom,
      UInt32.toNat_add, hdouble, hedges]
    omega
  · show (foldGraphFixedBinaryTreeScratchSlotCount n).toNat = n.toNat + treeEdgeCount n.toNat
    rw [foldGraphFixedBinaryTreeScratchSlotCount, if_neg hn0, UInt32.toNat_add, hedges]
    omega
  · show 2 * n.toNat + treeEdgeCount n.toNat < 2 ^ 32
    omega

/-! ### The layout -/

/-- Edge `i` of a level. -/
def levelEdge (plan : BuildPlan) (level base active i : Nat) : FoldGraphEdge :=
  if 2 * i + 1 < active then
    { level := UInt32.ofNat level
      leftSlot := UInt32.ofNat (base + 2 * i)
      rightSlot := UInt32.ofNat (base + 2 * i + 1)
      outputSlot := UInt32.ofNat (base + active + i)
      operation := plan.operation }
  else
    { level := UInt32.ofNat level
      leftSlot := UInt32.ofNat (base + 2 * i)
      rightSlot := UInt32.ofNat (base + 2 * i)
      outputSlot := UInt32.ofNat (base + active + i)
      operation := plan.operation
      paddingLaw := plan.primitive.paddingLaw
      paddingValue := plan.primitive.paddingValue
      rightIsPadding := true }

/-- The edges of one level. -/
def levelEdges (plan : BuildPlan) (level base active : Nat) : List FoldGraphEdge :=
  (List.range ((active + 1) / 2)).map (levelEdge plan level base active)

/-- The edges of the tree from a level on. -/
def treeEdges (plan : BuildPlan) (level base active : Nat) : List FoldGraphEdge :=
  if 2 ≤ active then
    levelEdges plan level base active ++
      treeEdges plan (level + 1) (base + active) ((active + 1) / 2)
  else []
  termination_by active
  decreasing_by omega

theorem treeEdges_of_lt {plan : BuildPlan} {level base active : Nat} (h : active < 2) :
    treeEdges plan level base active = [] := by
  rw [treeEdges, if_neg (by omega)]

theorem treeEdges_of_ge {plan : BuildPlan} {level base active : Nat} (h : 2 ≤ active) :
    treeEdges plan level base active = levelEdges plan level base active ++
      treeEdges plan (level + 1) (base + active) ((active + 1) / 2) := by
  rw [treeEdges, if_pos h]

@[simp] theorem length_levelEdges (plan : BuildPlan) (level base active : Nat) :
    (levelEdges plan level base active).length = (active + 1) / 2 := by
  simp [levelEdges]

theorem length_treeEdges (plan : BuildPlan) (level base active : Nat) :
    (treeEdges plan level base active).length = treeEdgeCount active := by
  induction level, base, active using treeEdges.induct with
  | case1 level base active h ih =>
      rw [treeEdges_of_ge h, List.length_append, length_levelEdges, ih, treeEdgeCount_of_ge h]
  | case2 level base active h =>
      rw [treeEdges_of_lt (by omega), treeEdgeCount_of_lt (by omega), List.length_nil]

/-! ### The loops write the layout -/

/-- The cursor at a level of a tree over `n` partitions. -/
structure CursorAt (cursor : TreeCursor) (n level base active : Nat) : Prop where
  edgeIndex : cursor.edgeIndex.toNat + n = base + active
  level_eq : cursor.level = UInt32.ofNat level
  currentSlotBase : cursor.currentSlotBase.toNat = base
  activeCount : cursor.activeCount.toNat = active
  nextOutputBase : cursor.nextOutputBase.toNat = base + active

theorem cursorAt_start (n : UInt32) : CursorAt (TreeCursor.start n) n.toNat 0 0 n.toNat :=
  ⟨by simp [TreeCursor.start], rfl, rfl, rfl, by simp [TreeCursor.start]⟩

theorem CursorAt.next {cursor : TreeCursor} {n level base active : Nat}
    (h : CursorAt cursor n level base active)
    (hbound : base + active + (active + 1) / 2 < 2 ^ 32) (hsmall : active + 1 < 2 ^ 32) :
    CursorAt cursor.next n (level + 1) (base + active) ((active + 1) / 2) := by
  have hhalf := toNat_half cursor.activeCount (by rw [h.activeCount]; omega)
  rw [h.activeCount] at hhalf
  have hidx := h.edgeIndex
  refine ⟨?_, ?_, h.nextOutputBase, hhalf, ?_⟩
  · simp only [TreeCursor.next, UInt32.toNat_add, hhalf]
    omega
  · simp only [TreeCursor.next, h.level_eq, UInt32.ofNat_add]
    rfl
  · simp only [TreeCursor.next, UInt32.toNat_add, hhalf, h.nextOutputBase]
    omega

theorem treeEdge_eq {plan : BuildPlan} {cursor : TreeCursor} {n level base active i : Nat}
    (h : CursorAt cursor n level base active) (hi : 2 * i < active)
    (hbound : base + active + (active + 1) / 2 < 2 ^ 32) :
    treeEdge plan cursor (UInt32.ofNat (2 * i)) = levelEdge plan level base active i := by
  have hone : (1 : UInt32).toNat = 1 := rfl
  have htwo : (2 : UInt32).toNat = 2 := rfl
  have hpair : (UInt32.ofNat (2 * i)).toNat = 2 * i := by
    rw [UInt32.toNat_ofNat']
    omega
  have hright : UInt32.ofNat (2 * i) + 1 < cursor.activeCount ↔ 2 * i + 1 < active := by
    rw [UInt32.lt_iff_toNat_lt, UInt32.toNat_add, hpair, h.activeCount]
    omega
  have hleft : cursor.currentSlotBase + UInt32.ofNat (2 * i) = UInt32.ofNat (base + 2 * i) := by
    rw [← UInt32.toNat_inj, UInt32.toNat_add, hpair, h.currentSlotBase, UInt32.toNat_ofNat']
  have hnext : UInt32.ofNat (base + 2 * i) + 1 = UInt32.ofNat (base + 2 * i + 1) := by
    rw [UInt32.ofNat_add (base + 2 * i)]
    rfl
  have hout : cursor.nextOutputBase + UInt32.ofNat (2 * i) / 2 =
      UInt32.ofNat (base + active + i) := by
    rw [← UInt32.toNat_inj, UInt32.toNat_add, UInt32.toNat_div, hpair, h.nextOutputBase, htwo,
      UInt32.toNat_ofNat']
    omega
  by_cases hr : 2 * i + 1 < active
  · simp only [treeEdge, levelEdge, hright, hr, hleft, hnext, hout, h.level_eq, decide_true,
      if_true, Bool.not_true]
  · simp only [treeEdge, levelEdge, hright, hr, hleft, hout, h.level_eq, decide_false,
      Bool.false_eq_true, if_false, Bool.not_false]

/-- A graph without what the loop over the levels writes. -/
def FoldGraph.header (graph : FoldGraph) : FoldGraph :=
  { graph with nodes := Vec.empty, reductionEdges := Vec.empty, finalSlot := 0 }

/-- `graph` is `before` with the edges `done` written and their nodes appended. -/
structure Written (plan : BuildPlan) (before : FoldGraph) (done : List FoldGraphEdge)
    (graph : FoldGraph) : Prop where
  header : graph.header = before.header
  length_eq : graph.reductionEdges.items.length = before.reductionEdges.items.length
  edges : graph.reductionEdges.items.take done.length = done
  nodes : graph.nodes.items = before.nodes.items ++
    done.mapIdx fun k edge => reductionNode plan (before.nodes.items.length + k) edge
  final : graph.finalSlot = (done.getLast?.map (·.outputSlot)).getD before.finalSlot

theorem written_nil (plan : BuildPlan) (graph : FoldGraph) : Written plan graph [] graph :=
  ⟨rfl, rfl, by simp, by simp, by simp⟩

theorem take_succ_set {α : Type} {xs : List α} {d : Nat} (a : α) (h : d < xs.length) :
    (xs.set d a).take (d + 1) = xs.take d ++ [a] := by
  rw [List.take_add_one, List.getElem?_set_self h, List.take_set_of_le (le_refl d)]
  rfl

/-- Writing one more edge. -/
theorem Written.push {plan : BuildPlan} {before graph : FoldGraph} {done : List FoldGraphEdge}
    (h : Written plan before done graph) (edge : FoldGraphEdge)
    (hroom : done.length < before.reductionEdges.items.length) :
    ∃ edges, (graph.reductionEdges.assign done.length edge : Building (Vec FoldGraphEdge)) =
        Except.ok edges ∧
      Written plan before (done ++ [edge]) (graph.withEdge plan edges edge) := by
  have hlen := h.length_eq
  refine ⟨_, Vec.assign_of_lt (by omega), h.header, ?_, ?_, ?_, ?_⟩
  · simpa [FoldGraph.withEdge] using hlen
  · rw [FoldGraph.withEdge, Vec.replace_items, List.length_append, List.length_singleton,
      take_succ_set edge (by omega), h.edges]
  · rw [FoldGraph.withEdge, Vec.pushBack_items, h.nodes, List.mapIdx_concat, List.append_assoc]
    simp
  · simp [FoldGraph.withEdge]

/-- The pairs of one level. -/
theorem appendPairs_written {plan : BuildPlan} {cursor : TreeCursor}
    {before graph : FoldGraph} {done : List FoldGraphEdge} {n level base active : Nat}
    (hcursor : CursorAt cursor n level base active) (hdone : done.length = cursor.edgeIndex.toNat)
    (hroom : done.length + (active + 1) / 2 ≤ before.reductionEdges.items.length)
    (hbound : base + active + (active + 1) / 2 < 2 ^ 32)
    (hw : Written plan before done graph) :
    ∃ graph', forRange ((active + 1) / 2) (appendPair plan cursor) graph = Except.ok graph' ∧
      Written plan before (done ++ levelEdges plan level base active) graph' := by
  have hidx := hcursor.edgeIndex
  obtain ⟨graph', hrun, hw'⟩ := forRange_returns
    (fun i g => Written plan before (done ++ (levelEdges plan level base active).take i) g)
    (n := (active + 1) / 2) (f := appendPair plan cursor) (s := graph)
    (by simpa using hw) (fun i g hi hg => by
      have hlen : (done ++ (levelEdges plan level base active).take i).length =
          cursor.edgeIndex.toNat + i := by
        rw [List.length_append, List.length_take, length_levelEdges, hdone]
        omega
      have hindex : (cursor.edgeIndex + UInt32.ofNat i).toNat =
          (done ++ (levelEdges plan level base active).take i).length := by
        rw [hlen, UInt32.toNat_add, UInt32.toNat_ofNat']
        omega
      have hedge : (levelEdges plan level base active)[i]? =
          some (treeEdge plan cursor (UInt32.ofNat (2 * i))) := by
        rw [treeEdge_eq hcursor (by omega) hbound]
        simp [levelEdges, hi]
      obtain ⟨edges, hrun, hg'⟩ := hg.push (treeEdge plan cursor (UInt32.ofNat (2 * i)))
        (by rw [hlen]; omega)
      refine ⟨g.withEdge plan edges (treeEdge plan cursor (UInt32.ofNat (2 * i))), ?_, ?_⟩
      · rw [appendPair, hindex, hrun]
        rfl
      · rw [List.take_add_one, hedge, ← List.append_assoc]
        exact hg')
  refine ⟨graph', hrun, ?_⟩
  rwa [List.take_of_length_le (by simp)] at hw'

/-- All levels: the loop writes the edges of the tree. -/
theorem appendLevels_written {plan : BuildPlan} (fuel : Nat) {cursor : TreeCursor}
    {before graph : FoldGraph} {done : List FoldGraphEdge} {n level base active : Nat}
    (hcursor : CursorAt cursor n level base active) (hdone : done.length = cursor.edgeIndex.toNat)
    (hroom : done.length + treeEdgeCount active ≤ before.reductionEdges.items.length)
    (hbound : base + active + treeEdgeCount active < 2 ^ 32) (hfuel : active ≤ fuel)
    (hw : Written plan before done graph) :
    ∃ graph', appendLevels plan fuel cursor graph = Except.ok graph' ∧
      Written plan before (done ++ treeEdges plan level base active) graph' := by
  have hone : (1 : UInt32).toNat = 1 := rfl
  have hstop : ¬ cursor.activeCount > 1 → active < 2 := by
    intro h
    have := mt UInt32.lt_iff_toNat_lt.mpr h
    rw [hcursor.activeCount] at this
    omega
  induction fuel generalizing cursor graph done level base active with
  | zero =>
      rw [treeEdges_of_lt (by omega), List.append_nil]
      exact ⟨graph, rfl, hw⟩
  | succ fuel ih =>
      rw [appendLevels]
      by_cases hactive : cursor.activeCount > 1
      · have h2 : 2 ≤ active := by
          have := UInt32.lt_iff_toNat_lt.mp hactive
          rw [hcursor.activeCount] at this
          omega
        have hcount := treeEdgeCount_of_ge h2
        have hhalf := toNat_half cursor.activeCount (by rw [hcursor.activeCount]; omega)
        rw [hcursor.activeCount] at hhalf
        obtain ⟨g₁, hrun₁, hw₁⟩ :=
          appendPairs_written hcursor hdone (by omega) (by omega) hw
        have hnext := hcursor.next (by omega) (by omega)
        have hidx := hcursor.edgeIndex
        have hidx' := hnext.edgeIndex
        have hlen : (done ++ levelEdges plan level base active).length =
            cursor.next.edgeIndex.toNat := by
          rw [List.length_append, length_levelEdges]
          omega
        obtain ⟨g₂, hrun₂, hw₂⟩ := ih hnext hlen
          (by rw [List.length_append, length_levelEdges]; omega) (by omega) (by omega) hw₁
          (fun h => by
            have := mt UInt32.lt_iff_toNat_lt.mpr h
            rw [hnext.activeCount] at this
            omega)
        refine ⟨g₂, ?_, ?_⟩
        · simp only [if_pos hactive, hhalf, hrun₁]
          exact hrun₂
        · rw [treeEdges_of_ge h2, ← List.append_assoc]
          exact hw₂
      · rw [if_neg hactive, treeEdges_of_lt (hstop hactive), List.append_nil]
        exact ⟨graph, rfl, hw⟩

/-! ### The partitions -/

/-- The slots of `n` partitions. -/
def leafSlots (n : Nat) : List UInt32 := (List.range n).map UInt32.ofNat

/-- The nodes of `n` partitions. -/
def leafNodes (plan : BuildPlan) (n : Nat) : List FoldGraphNode :=
  (List.range n).flatMap fun p =>
    [partitionNode plan .workerLocalPartial (2 * p) (UInt32.ofNat p),
      partitionNode plan .globalOrderedSlot (2 * p + 1) (UInt32.ofNat p)]

theorem length_leafNodes (plan : BuildPlan) (n : Nat) : (leafNodes plan n).length = 2 * n := by
  simp [leafNodes, List.length_flatMap, mul_comm]

theorem leafNodes_succ (plan : BuildPlan) (n : Nat) :
    leafNodes plan (n + 1) = leafNodes plan n ++
      [partitionNode plan .workerLocalPartial (2 * n) (UInt32.ofNat n),
        partitionNode plan .globalOrderedSlot (2 * n + 1) (UInt32.ofNat n)] := by
  simp [leafNodes, List.range_succ]

theorem leafSlots_succ (n : Nat) : leafSlots (n + 1) = leafSlots n ++ [UInt32.ofNat n] := by
  simp [leafSlots, List.range_succ]

theorem appendPartitionSlots_eq {plan : BuildPlan} {graph : FoldGraph}
    (hslots : graph.partitionFoldSlots.items.length = plan.partitionCount.toNat)
    (hnodes : graph.nodes.items = []) :
    ∃ slots nodes, appendPartitionSlots graph plan =
        Except.ok { graph with partitionFoldSlots := slots, nodes := nodes } ∧
      slots.items = leafSlots plan.partitionCount.toNat ∧
      nodes.items = leafNodes plan plan.partitionCount.toNat := by
  obtain ⟨g, hrun, slots, nodes, rfl, hlen, hs, hn⟩ := forRange_returns
    (fun p (g : FoldGraph) => ∃ slots nodes,
      g = { graph with partitionFoldSlots := slots, nodes := nodes } ∧
      slots.items.length = plan.partitionCount.toNat ∧ slots.items.take p = leafSlots p ∧
      nodes.items = leafNodes plan p)
    (n := plan.partitionCount.toNat) (f := appendPartitionSlot plan) (s := graph)
    ⟨graph.partitionFoldSlots, graph.nodes, rfl, hslots, by simp [leafSlots],
      by simp [leafNodes, hnodes]⟩
    (fun p g hp hg => by
      obtain ⟨slots, nodes, rfl, hlen, hs, hn⟩ := hg
      have hassign := Vec.assign_of_lt (ε := FoldGraphBuild) (v := slots) (i := p)
        (a := UInt32.ofNat p) (by omega)
      refine ⟨{ graph with
          partitionFoldSlots := slots.replace (slots.items.set p (UInt32.ofNat p))
          nodes := pushPartitionNodes plan nodes (UInt32.ofNat p) },
        by rw [appendPartitionSlot, hassign]; rfl, _, _, rfl, ?_, ?_, ?_⟩
      · simpa using hlen
      · rw [Vec.replace_items, take_succ_set _ (by omega), hs, leafSlots_succ]
      · rw [pushPartitionNodes, Vec.pushBack_items, Vec.pushBack_items, hn, List.length_append,
          length_leafNodes, leafNodes_succ, List.append_assoc]
        rfl)
  refine ⟨slots, nodes, hrun, ?_, hn⟩
  rwa [List.take_of_length_le (by omega)] at hs

/-! ### The populated graph -/

/-- The graph a plan asks for. -/
structure Layout (plan : BuildPlan) (graph : FoldGraph) : Prop where
  operation : graph.operation = plan.operation
  strictFloatReduction : graph.strictFloatReduction = plan.strictFloatReduction
  partitionCount : graph.partitionCount = plan.partitionCount
  fixedTopologicalOrder : graph.fixedTopologicalOrder = true
  primitiveStandardized : graph.primitiveStandardized = plan.primitive.supported
  floatingPointAllowed : graph.floatingPointAllowed = false
  strictFloatingPoint : graph.strictFloatingPoint = plan.primitive.requiresStrictFloatingPoint
  scratchSlotCount : graph.scratchSlotCount = plan.requiredScratchSlots
  slots : graph.partitionFoldSlots.items = leafSlots plan.partitionCount.toNat
  edges : graph.reductionEdges.items = treeEdges plan 0 0 plan.partitionCount.toNat
  nodes : graph.nodes.items = leafNodes plan plan.partitionCount.toNat ++
    (treeEdges plan 0 0 plan.partitionCount.toNat).mapIdx fun k edge =>
      reductionNode plan (2 * plan.partitionCount.toNat + k) edge
  finalSlot : graph.finalSlot =
    ((treeEdges plan 0 0 plan.partitionCount.toNat).getLast?.map (·.outputSlot)).getD
      (plan.partitionCount - 1)

/-- **The builder's loops write the layout of the fixed binary tree.** -/
theorem populate_layout {plan : BuildPlan} (hplan : PlanCounts plan) (graph : FoldGraph) :
    ∃ graph', populateFixedBinaryTreeGraph graph plan = Except.ok graph' ∧ Layout plan graph' := by
  have hedges := hplan.edges
  have hfits := hplan.fits
  have hstart := cursorAt_start plan.partitionCount
  simp only [populateFixedBinaryTreeGraph]
  generalize hg₀ : ({ graph with
    operation := plan.operation
    valueDomain := plan.primitive.valueDomain
    strictFloatReduction := plan.strictFloatReduction
    partitionCount := plan.partitionCount
    workerLocalSlotCount := plan.partitionCount
    globalOrderedSlotCount := plan.partitionCount
    scratchSlotCount := plan.requiredScratchSlots
    finalSlot := plan.partitionCount - 1
    fixedBinaryTree := true
    fixedTopologicalOrder := true
    dagValidated := false
    slotBoundsValidated := false
    paddingLawValidated := false
    primitiveStandardized := plan.primitive.supported
    floatingPointAllowed := false
    strictFloatingPoint := plan.primitive.requiresStrictFloatingPoint
    partitionFoldSlots := graph.partitionFoldSlots.resize plan.partitionCount.toNat 0
    nodes := graph.nodes.clear.reserve plan.requiredNodes.toNat } : FoldGraph) = g₀
  obtain ⟨slots, nodes, hrun₁, hslots, hnodes⟩ := @appendPartitionSlots_eq plan g₀
    (by rw [← hg₀]; exact Vec.resize_length _ _ _) (by rw [← hg₀]; rfl)
  rw [hrun₁, ok_bind]
  generalize hg₁ : ({ g₀ with
    partitionFoldSlots := slots
    nodes := nodes
    reductionEdges := g₀.reductionEdges.clear.resize plan.requiredEdges.toNat {} } : FoldGraph) =
      g₁
  have hlen : g₁.reductionEdges.items.length = treeEdgeCount plan.partitionCount.toNat := by
    rw [← hg₁, ← hedges]
    exact Vec.resize_length _ _ _
  have hnil := written_nil plan g₁
  obtain ⟨g₂, hrun₂, hw⟩ := appendLevels_written plan.partitionCount.toNat hstart rfl
    (by rw [hlen, List.length_nil, Nat.zero_add]) (by omega) le_rfl hnil
  rw [List.nil_append] at hw
  refine ⟨g₂, hrun₂, ?_⟩
  have hfield : ∀ {β : Type} (f : FoldGraph → β), f g₂.header = f g₁.header :=
    fun f => congrArg f hw.header
  have hw_edges : g₂.reductionEdges.items = treeEdges plan 0 0 plan.partitionCount.toNat := by
    have := hw.edges
    rwa [length_treeEdges, ← hlen, ← hw.length_eq, List.take_length] at this
  have hnodes₁ : g₁.nodes.items = leafNodes plan plan.partitionCount.toNat := by
    rw [← hg₁]
    exact hnodes
  have hfinal := hw.final
  rw [show g₁.finalSlot = plan.partitionCount - 1 by rw [← hg₁, ← hg₀]] at hfinal
  have hw_nodes := hw.nodes
  rw [hnodes₁, length_leafNodes] at hw_nodes
  subst hg₁ hg₀
  exact
    { operation := hfield FoldGraph.operation
      strictFloatReduction := hfield FoldGraph.strictFloatReduction
      partitionCount := hfield FoldGraph.partitionCount
      fixedTopologicalOrder := hfield FoldGraph.fixedTopologicalOrder
      primitiveStandardized := hfield FoldGraph.primitiveStandardized
      floatingPointAllowed := hfield FoldGraph.floatingPointAllowed
      strictFloatingPoint := hfield FoldGraph.strictFloatingPoint
      scratchSlotCount := hfield FoldGraph.scratchSlotCount
      slots := by
        have := hfield fun g => g.partitionFoldSlots.items
        exact this.trans hslots
      edges := hw_edges
      nodes := hw_nodes
      finalSlot := hfinal }

end RunD
