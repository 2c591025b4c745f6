/-
Every graph with the layout of the fixed binary tree passes both validators.

The generic validator accepts it (`layout_accepted`), and so does the
builder's own check of what it built (`validateBuilt_layout`).  A build
therefore succeeds exactly when its plan is admitted, and the graph it returns
has the layout (`buildFoldGraph_layout`, `buildFoldGraph_returns`).
-/
import RunD.FoldTree
import RunD.FoldSafety

namespace RunD

variable {plan : BuildPlan}

/-! ### The edges of the layout -/

theorem toNat_ofNat_of_lt {n : Nat} (h : n < 2 ^ 32) : (UInt32.ofNat n).toNat = n := by
  rw [UInt32.toNat_ofNat']
  exact Nat.mod_eq_of_lt h

/-- An edge of the tree that writes slot `out`: its operands lie below its output and its
padding obeys the plan. -/
structure TreeEdge (plan : BuildPlan) (out : Nat) (edge : FoldGraphEdge) : Prop where
  output : edge.outputSlot.toNat = out
  left_lt : edge.leftSlot.toNat < out
  right_lt : edge.rightSlot.toNat < out
  operation : edge.operation = plan.operation
  padding : edge.rightIsPadding = true →
    edge.paddingLaw = plan.primitive.paddingLaw ∧ edge.paddingValue = plan.primitive.paddingValue
  no_padding : edge.rightIsPadding = false → edge.paddingLaw = .none

theorem levelEdge_spec {level base active i : Nat} (hi : 2 * i < active)
    (hbound : base + active + i < 2 ^ 32) :
    TreeEdge plan (base + active + i) (levelEdge plan level base active i) := by
  have hleft := toNat_ofNat_of_lt (show base + 2 * i < 2 ^ 32 by omega)
  have hout := toNat_ofNat_of_lt hbound
  unfold levelEdge
  split
  · next hr =>
    have hright := toNat_ofNat_of_lt (show base + 2 * i + 1 < 2 ^ 32 by omega)
    exact ⟨hout, by rw [hleft]; omega, by rw [hright]; omega, rfl, by simp, by simp⟩
  · exact ⟨hout, by rw [hleft]; omega, by rw [hleft]; omega, rfl, by simp, by simp⟩

/-- Edge `j` of the tree writes the slot `j` places after the leaves of its first level. -/
theorem treeEdges_spec {level base active j : Nat} {edge : FoldGraphEdge}
    (hbound : base + active + treeEdgeCount active < 2 ^ 32)
    (h : (treeEdges plan level base active)[j]? = some edge) :
    TreeEdge plan (base + active + j) edge := by
  induction level, base, active using treeEdges.induct generalizing j with
  | case1 level base active hge ih =>
      rw [treeEdgeCount_of_ge hge] at hbound
      rw [treeEdges_of_ge hge] at h
      by_cases hj : j < (active + 1) / 2
      · rw [List.getElem?_append_left (by simpa using hj), levelEdges, List.getElem?_map,
          List.getElem?_range hj, Option.map_some, Option.some.injEq] at h
        rw [← h]
        exact levelEdge_spec (by omega) (by omega)
      · rw [List.getElem?_append_right (by simpa using hj), length_levelEdges] at h
        have := ih (by omega) h
        rwa [show base + active + (active + 1) / 2 + (j - (active + 1) / 2) = base + active + j by
          omega] at this
  | case2 level base active hlt =>
      rw [treeEdges_of_lt (by omega)] at h
      simp at h

theorem levelEdge_level (level base active i : Nat) :
    (levelEdge plan level base active i).level = UInt32.ofNat level := by
  unfold levelEdge
  split <;> rfl

/-- No edge of the tree has a level below the first. -/
theorem level_le_of_mem_treeEdges {level base active : Nat} {edge : FoldGraphEdge}
    (hbound : level + treeEdgeCount active < 2 ^ 32)
    (h : edge ∈ treeEdges plan level base active) : level ≤ edge.level.toNat := by
  induction level, base, active using treeEdges.induct with
  | case1 level base active hge ih =>
      rw [treeEdgeCount_of_ge hge] at hbound
      rw [treeEdges_of_ge hge, List.mem_append] at h
      rcases h with h | h
      · obtain ⟨i, -, rfl⟩ := List.mem_map.mp h
        rw [levelEdge_level, toNat_ofNat_of_lt (by omega)]
      · have := ih (by omega) h
        omega
  | case2 level base active hlt =>
      rw [treeEdges_of_lt (by omega)] at h
      simp at h

/-- The levels of successive edges do not decrease. -/
theorem treeEdges_level_mono {level base active j : Nat} {edge next : FoldGraphEdge}
    (hbound : level + treeEdgeCount active < 2 ^ 32)
    (hj : (treeEdges plan level base active)[j]? = some edge)
    (hnext : (treeEdges plan level base active)[j + 1]? = some next) :
    edge.level ≤ next.level := by
  induction level, base, active using treeEdges.induct generalizing j with
  | case1 level base active hge ih =>
      rw [treeEdgeCount_of_ge hge] at hbound
      rw [treeEdges_of_ge hge] at hj hnext
      by_cases h : j < (active + 1) / 2
      · rw [List.getElem?_append_left (by simpa using h)] at hj
        have hlevel : edge.level = UInt32.ofNat level := by
          obtain ⟨i, -, rfl⟩ := List.mem_map.mp (List.mem_of_getElem? hj)
          exact levelEdge_level _ _ _ _
        have hmem := List.mem_of_getElem? hnext
        rw [← treeEdges_of_ge hge] at hmem
        have := level_le_of_mem_treeEdges (by rw [treeEdgeCount_of_ge hge]; omega) hmem
        rw [hlevel, UInt32.le_iff_toNat_le, toNat_ofNat_of_lt (by omega)]
        exact this
      · rw [List.getElem?_append_right (by simpa using h), length_levelEdges] at hj
        rw [List.getElem?_append_right (by simp; omega), length_levelEdges,
          show j + 1 - (active + 1) / 2 = j - (active + 1) / 2 + 1 by omega] at hnext
        exact ih (by omega) hj hnext
  | case2 level base active hlt =>
      rw [treeEdges_of_lt (by omega)] at hj
      simp at hj

/-! ### A built graph is accepted -/

/-- What the builder's admission checks say of the operation and its policy. -/
structure AdmittedLaw (plan : BuildPlan) : Prop where
  primitive : plan.primitive = describeFoldOperation plan.operation
  supported : isSupportedFoldOperation plan.operation = true
  law : foldOperationAllowsFloatingPoint plan.operation = true →
    plan.strictFloatReduction.valid = true ∧
      strictFloatReductionValid plan.operation plan.strictFloatReduction = true

section View

variable {graph : FoldGraph} (hplan : PlanCounts plan) (hlayout : Layout plan graph)
include hplan hlayout

theorem view_slots_items : (viewFoldGraph graph).partitionFoldSlots.items =
    leafSlots plan.partitionCount.toNat := by
  have := hplan.fits
  rw [viewFoldGraph, ArrayView.ofList_items (by rw [hlayout.slots]; simp [leafSlots]; omega),
    hlayout.slots]

theorem view_slots : (viewFoldGraph graph).slots = List.range plan.partitionCount.toNat := by
  have hfits := hplan.fits
  rw [FoldGraphView.slots, view_slots_items hplan hlayout, leafSlots, List.map_map]
  conv_rhs => rw [← List.map_id (List.range plan.partitionCount.toNat)]
  refine List.map_congr_left fun p hp => ?_
  exact toNat_ofNat_of_lt (by have := List.mem_range.mp hp; omega)

theorem view_edges : (viewFoldGraph graph).edges = treeEdges plan 0 0 plan.partitionCount.toNat := by
  have := hplan.fits
  rw [FoldGraphView.edges, viewFoldGraph, ArrayView.ofList_items (by
    rw [hlayout.edges, length_treeEdges]
    omega), hlayout.edges]

theorem view_nodes : (viewFoldGraph graph).nodes.items = graph.nodes.items := by
  have := hplan.fits
  rw [viewFoldGraph, ArrayView.ofList_items (by
    rw [hlayout.nodes, List.length_append, length_leafNodes, List.length_mapIdx, length_treeEdges]
    omega)]

theorem view_treeEdge {j : Nat} {edge : FoldGraphEdge}
    (h : (viewFoldGraph graph).edges[j]? = some edge) :
    TreeEdge plan (plan.partitionCount.toNat + j) edge := by
  have := hplan.fits
  rw [view_edges hplan hlayout] at h
  have := treeEdges_spec (by omega) h
  rwa [Nat.zero_add] at this

theorem view_outputs {j : Nat} (hj : j ≤ treeEdgeCount plan.partitionCount.toNat) :
    (viewFoldGraph graph).outputs j = List.range' plan.partitionCount.toNat j := by
  have hedges := view_edges hplan hlayout
  have hlen := length_treeEdges plan 0 0 plan.partitionCount.toNat
  induction j with
  | zero => simp [FoldGraphView.outputs]
  | succ j ih =>
      obtain ⟨edge, hedge⟩ : ∃ edge, (viewFoldGraph graph).edges[j]? = some edge :=
        ⟨_, List.getElem?_eq_getElem (by rw [hedges, hlen]; omega)⟩
      rw [outputs_succ hedge, ih (by omega), (view_treeEdge hplan hlayout hedge).output,
        List.range'_concat, Nat.one_mul]

theorem mem_view_defined {j s : Nat} (hj : j ≤ treeEdgeCount plan.partitionCount.toNat) :
    s ∈ (viewFoldGraph graph).defined j ↔ s < plan.partitionCount.toNat + j := by
  rw [FoldGraphView.defined, view_slots hplan hlayout, view_outputs hplan hlayout hj,
    List.mem_append, List.mem_range, List.mem_range'_1]
  omega

omit hlayout in
theorem requiredScratchSlots_ne : plan.requiredScratchSlots ≠ 0 := by
  intro h
  have h0 : plan.requiredScratchSlots.toNat = 0 := by rw [h]; rfl
  have := hplan.scratch
  have := hplan.pos
  omega

omit hlayout in
/-- No slot of the tree raises the range. -/
theorem max_requiredScratchSlots {s : UInt32}
    (h : s.toNat < plan.partitionCount.toNat + treeEdgeCount plan.partitionCount.toNat) :
    max plan.requiredScratchSlots (s + 1) = plan.requiredScratchSlots := by
  have hscratch := hplan.scratch
  have hfits := hplan.fits
  have hsucc : (s + 1).toNat = s.toNat + 1 := by
    rw [UInt32.toNat_add, show (1 : UInt32).toNat = 1 from rfl]
    omega
  show (if plan.requiredScratchSlots ≤ s + 1 then s + 1 else plan.requiredScratchSlots) = _
  split
  · next hle =>
    rw [UInt32.le_iff_toNat_le] at hle
    rw [← UInt32.toNat_inj]
    omega
  · rfl

theorem raiseForPartition_eq {i : Nat}
    (hi : i < (viewFoldGraph graph).partitionFoldSlots.count.toNat) :
    raiseForPartition (viewFoldGraph graph) i plan.requiredScratchSlots =
      Except.ok plan.requiredScratchSlots := by
  have hslots : (viewFoldGraph graph).partitionFoldSlots.Readable := fun _ => rfl
  have hlen := ArrayView.items_length hslots
  obtain ⟨slot, hslot⟩ : ∃ slot, (viewFoldGraph graph).partitionFoldSlots.items[i]? = some slot :=
    ⟨_, List.getElem?_eq_getElem (by omega)⟩
  have hlt : slot.toNat < plan.partitionCount.toNat := by
    have := List.mem_of_getElem? (slots_getElem? hslot)
    rw [view_slots hplan hlayout, List.mem_range] at this
    exact this
  rw [raiseForPartition, ArrayView.get_eq_fetch hslots hi, fetch_of_lt hslot, ok_bind,
    max_requiredScratchSlots hplan (by omega)]
  rfl

theorem raiseForEdge_eq {i : Nat} (hi : i < (viewFoldGraph graph).reductionEdges.count.toNat) :
    raiseForEdge (viewFoldGraph graph) i plan.requiredScratchSlots =
      Except.ok plan.requiredScratchSlots := by
  have hedges : (viewFoldGraph graph).reductionEdges.Readable := fun _ => rfl
  have hlen := ArrayView.items_length hedges
  obtain ⟨edge, hedge⟩ : ∃ edge, (viewFoldGraph graph).reductionEdges.items[i]? = some edge :=
    ⟨_, List.getElem?_eq_getElem (by omega)⟩
  have htree := view_treeEdge hplan hlayout hedge
  have hi' : i < treeEdgeCount plan.partitionCount.toNat := by
    have := (List.getElem?_eq_some_iff.mp hedge).1
    rwa [← FoldGraphView.edges, view_edges hplan hlayout, length_treeEdges] at this
  have hl := htree.left_lt
  have hr := htree.right_lt
  have ho := htree.output
  rw [raiseForEdge, ArrayView.get_eq_fetch hedges hi, fetch_of_lt hedge, ok_bind,
    max_requiredScratchSlots hplan (s := edge.leftSlot) (by omega),
    max_requiredScratchSlots hplan (s := edge.rightSlot) (by omega),
    max_requiredScratchSlots hplan (s := edge.outputSlot) (by omega)]
  rfl

/-- The scratch range of a built graph is the planned one. -/
theorem view_scratchSlotCount : foldGraphScratchSlotCount (viewFoldGraph graph) =
    Except.ok plan.requiredScratchSlots := by
  have hcount : (viewFoldGraph graph).scratchSlotCount = plan.requiredScratchSlots :=
    hlayout.scratchSlotCount
  have hne := requiredScratchSlots_ne hplan
  obtain ⟨r, hrun₁, rfl⟩ := forRange_returns (fun _ r => r = plan.requiredScratchSlots)
    (f := raiseForPartition (viewFoldGraph graph)) rfl
    (fun i t hi ht => by
      rw [ht]
      exact ⟨_, raiseForPartition_eq hplan hlayout hi, rfl⟩)
  obtain ⟨r, hrun₂, rfl⟩ := forRange_returns (fun _ r => r = plan.requiredScratchSlots)
    (f := raiseForEdge (viewFoldGraph graph)) rfl
    (fun i t hi ht => by
      rw [ht]
      exact ⟨_, raiseForEdge_eq hplan hlayout hi, rfl⟩)
  simp only [foldGraphScratchSlotCount, hcount, hne, if_false]
  rw [if_neg (by simp [viewFoldGraph]), if_neg (by simp [viewFoldGraph]),
    if_neg (by simp [viewFoldGraph]), hrun₁]
  exact hrun₂

theorem view_shape (hlaw : AdmittedLaw plan) :
    validateFoldGraphShape (viewFoldGraph graph) = Except.ok () := by
  have hop : (viewFoldGraph graph).operation = plan.operation := hlayout.operation
  have hpolicy : (viewFoldGraph graph).strictFloatReduction = plan.strictFloatReduction :=
    hlayout.strictFloatReduction
  have hsup := hlaw.supported
  have hcount : UInt32.ofNat graph.partitionFoldSlots.items.length = graph.partitionCount := by
    rw [hlayout.slots, hlayout.partitionCount, leafSlots, List.length_map, List.length_range]
    exact UInt32.ofNat_toNat
  have hne : graph.partitionCount ≠ 0 := by
    intro h
    have := hplan.pos
    rw [hlayout.partitionCount] at h
    rw [h] at this
    exact absurd this (by decide)
  have hstd : (viewFoldGraph graph).primitiveStandardized = true := by
    show graph.primitiveStandardized = true
    rw [hlayout.primitiveStandardized, hlaw.primitive]
    rw [isSupportedFoldOperation, Bool.and_eq_true] at hsup
    exact hsup.1
  have hfloat : validateFloatingPointLaw (viewFoldGraph graph) = Except.ok () := by
    rw [validateFloatingPointLaw, hop, hpolicy]
    have hstrict : (viewFoldGraph graph).strictFloatingPoint =
        (describeFoldOperation plan.operation).requiresStrictFloatingPoint := by
      rw [← hlaw.primitive]
      exact hlayout.strictFloatingPoint
    have hallowed : (viewFoldGraph graph).floatingPointAllowed = false :=
      hlayout.floatingPointAllowed
    split
    · next hf =>
      obtain ⟨hvalid, hreduction⟩ := hlaw.law hf
      simp only [bind_eq_ok, require_eq_ok, exists_const]
      refine ⟨?_, hvalid, hreduction⟩
      rw [hstrict]
      revert hf
      cases plan.operation <;> simp [foldOperationAllowsFloatingPoint, describeFoldOperation,
        strictFloatSpec, integerSpec]
    · next hf =>
      rw [require_eq_ok, hallowed, hstrict]
      revert hf
      cases plan.operation <;> simp [foldOperationAllowsFloatingPoint, describeFoldOperation,
        strictFloatSpec, integerSpec]
  simp only [validateFoldGraphShape, bind_eq_ok, require_eq_ok, exists_const]
  refine ⟨⟨hstd, by rw [hop]; exact hsup⟩, (), hfloat, hlayout.fixedTopologicalOrder,
    ⟨hne, rfl, hcount⟩, by simp [viewFoldGraph], by simp [viewFoldGraph]⟩

end View

/-! ### The nodes of the layout -/

theorem getElem?_leafNodes (n : Nat) {i : Nat} (hi : i < 2 * n) :
    (leafNodes plan n)[i]? = some (partitionNode plan
      (if i % 2 = 0 then .workerLocalPartial else .globalOrderedSlot) i (UInt32.ofNat (i / 2))) := by
  induction n with
  | zero => omega
  | succ n ih =>
      rw [leafNodes_succ]
      by_cases h : i < 2 * n
      · rw [List.getElem?_append_left (by rw [length_leafNodes]; exact h)]
        exact ih h
      · rw [List.getElem?_append_right (by rw [length_leafNodes]; omega), length_leafNodes]
        obtain rfl | rfl : i = 2 * n ∨ i = 2 * n + 1 := by omega
        · simp
        · have h1 : (2 * n + 1) % 2 = 1 := by omega
          have h2 : (2 * n + 1) / 2 = n := by omega
          simp [h1, h2]

section Accepted

variable {graph : FoldGraph} (hplan : PlanCounts plan) (hlayout : Layout plan graph)
  (hlaw : AdmittedLaw plan)
include hplan hlayout

include hlaw in
theorem layout_edgeAccepted {j : Nat} {edge : FoldGraphEdge}
    (h : (viewFoldGraph graph).edges[j]? = some edge) :
    EdgeAccepted (viewFoldGraph graph) plan.requiredScratchSlots j edge := by
  have hscratch := hplan.scratch
  have hfits := hplan.fits
  have hedges := view_edges hplan hlayout
  have hop : (viewFoldGraph graph).operation = plan.operation := hlayout.operation
  have htree := view_treeEdge hplan hlayout h
  have hj : j < treeEdgeCount plan.partitionCount.toNat := by
    have := (List.getElem?_eq_some_iff.mp h).1
    rwa [hedges, length_treeEdges] at this
  have hl := htree.left_lt
  have hr := htree.right_lt
  have ho := htree.output
  exact
    { operation := by rw [htree.operation, hop]
      level := by
        rintro i before rfl hbefore
        rw [hedges] at hbefore h
        exact treeEdges_level_mono (by omega) hbefore h
      left_lt := by rw [UInt32.lt_iff_toNat_lt]; omega
      right_lt := by rw [UInt32.lt_iff_toNat_lt]; omega
      output_lt := by rw [UInt32.lt_iff_toNat_lt]; omega
      left_defined := (mem_view_defined hplan hlayout hj.le).mpr hl
      right_defined := fun _ => (mem_view_defined hplan hlayout hj.le).mpr hr
      output_fresh := fun hmem => by
        have := (mem_view_defined hplan hlayout hj.le).mp hmem
        omega
      padding := fun hpad => by
        rw [hop, ← hlaw.primitive]
        exact htree.padding hpad
      no_padding := htree.no_padding }

include hlaw in
theorem layout_nodeAccepted {i : Nat} {node : FoldGraphNode}
    (h : (viewFoldGraph graph).nodes.items[i]? = some node) :
    NodeAccepted (viewFoldGraph graph) plan.requiredScratchSlots i node := by
  have hscratch := hplan.scratch
  have hfits := hplan.fits
  have hop : (viewFoldGraph graph).operation = plan.operation := hlayout.operation
  have hslots := view_slots hplan hlayout
  rw [view_nodes hplan hlayout, hlayout.nodes] at h
  by_cases hi : i < 2 * plan.partitionCount.toNat
  · -- a partition's node
    rw [List.getElem?_append_left (by rw [length_leafNodes]; exact hi), getElem?_leafNodes _ hi,
      Option.some.injEq] at h
    have hslot : node.slot.toNat = i / 2 := by
      rw [← h]
      exact toNat_ofNat_of_lt (by omega)
    have hmem : node.slot.toNat ∈ (viewFoldGraph graph).slots := by
      rw [hslots, List.mem_range]
      omega
    refine ⟨?_, by rw [UInt32.lt_iff_toNat_lt]; omega, ?_, ?_, ?_, ?_, ?_⟩
    · rw [← h, partitionNode]
    · rw [← h, hop, partitionNode]
    · rw [← h, hop, ← hlaw.primitive, partitionNode]
    · rw [← h, hop, ← hlaw.primitive, partitionNode]
    · rw [← h]
      simp [partitionNode]
    · rw [← h] at hmem ⊢
      by_cases heven : i % 2 = 0
      · simp only [partitionNode, heven, if_true]
        exact ⟨hmem, trivial, trivial, trivial, trivial⟩
      · simp only [partitionNode, heven, if_false]
        exact ⟨hmem, trivial, trivial, trivial, trivial⟩
  · -- a reduction's node
    rw [List.getElem?_append_right (by rw [length_leafNodes]; omega), length_leafNodes,
      List.getElem?_mapIdx] at h
    obtain ⟨edge, hedge, hnode⟩ := Option.map_eq_some_iff.mp h
    rw [← view_edges hplan hlayout] at hedge
    have htree := view_treeEdge hplan hlayout hedge
    have haccepted := layout_edgeAccepted hplan hlayout hlaw hedge
    subst hnode
    refine ⟨?_, haccepted.output_lt, hop.symm, by rw [hop, ← hlaw.primitive]; rfl,
      by rw [hop, ← hlaw.primitive]; rfl,
      fun hpad => ⟨(haccepted.padding hpad).1, haccepted.right_lt⟩, ?_, _, edge, hedge, ?_⟩
    · rw [reductionNode, Nat.add_sub_cancel' (by omega)]
    · rw [hslots, List.mem_range, reductionNode, htree.output]
      omega
    · simp [reductionNodeMatchesEdge, reductionNode, htree.operation]

theorem layout_final : (viewFoldGraph graph).finalSlotAfter (viewFoldGraph graph).edges.length =
    some (viewFoldGraph graph).finalSlot := by
  have hpos := hplan.pos
  have hfits := hplan.fits
  have hfinal : (viewFoldGraph graph).finalSlot =
    ((treeEdges plan 0 0 plan.partitionCount.toNat).getLast?.map (·.outputSlot)).getD
      (plan.partitionCount - 1) := hlayout.finalSlot
  have hone : (1 : UInt32) ≤ plan.partitionCount := UInt32.le_iff_toNat_le.mpr hpos
  have hlast : (leafSlots plan.partitionCount.toNat).getLast? = some (plan.partitionCount - 1) := by
    obtain ⟨m, hm⟩ : ∃ m, plan.partitionCount.toNat = m + 1 := ⟨_, (Nat.sub_add_cancel hpos).symm⟩
    rw [hm, leafSlots_succ, List.getLast?_concat, Option.some.injEq, ← UInt32.toNat_inj,
      toNat_ofNat_of_lt (by omega), UInt32.toNat_sub_of_le _ _ hone, hm]
    rfl
  rw [FoldGraphView.finalSlotAfter, List.take_length, view_edges hplan hlayout,
    view_slots_items hplan hlayout, hlast, hfinal]
  rcases (treeEdges plan 0 0 plan.partitionCount.toNat).getLast? with - | edge
  · rfl
  · rfl

include hlaw in
/-- **The generic validator accepts every graph with the layout of the tree.** -/
theorem layout_accepted : Accepted (viewFoldGraph graph) plan.requiredScratchSlots where
  shape := view_shape hplan hlayout hlaw
  count := view_scratchSlotCount hplan hlayout
  required_ne := requiredScratchSlots_ne hplan
  slots_lt s hs := by
    rw [view_slots hplan hlayout, List.mem_range] at hs
    rw [hplan.scratch]
    omega
  slots_nodup := by
    rw [view_slots hplan hlayout]
    exact List.nodup_range
  edge _ _ h := layout_edgeAccepted hplan hlayout hlaw h
  final := layout_final hplan hlayout
  node _ _ h := layout_nodeAccepted hplan hlayout hlaw h

end Accepted

/-! ### The builder's own check -/

/-- The outcome of the builder's check of a graph with the layout. -/
def builtResult (plan : BuildPlan) (graph : FoldGraph) : FoldGraphValidationResult :=
  { ok := true, reason := "pass", scratchSlotCount := plan.requiredScratchSlots,
    finalSlot := graph.finalSlot, dagValidated := true, slotBoundsValidated := true,
    paddingLawValidated := true }

section Built

variable {graph : FoldGraph} (hplan : PlanCounts plan) (hlayout : Layout plan graph)
include hplan hlayout

omit hplan in
theorem layout_edge_index {j : Nat} {edge : FoldGraphEdge}
    (h : graph.reductionEdges.items[j]? = some edge) :
    j < treeEdgeCount plan.partitionCount.toNat := by
  have := (List.getElem?_eq_some_iff.mp h).1
  rwa [hlayout.edges, length_treeEdges] at this

omit hplan in
theorem layout_reductionNode {j : Nat} {edge : FoldGraphEdge}
    (h : graph.reductionEdges.items[j]? = some edge) :
    graph.nodes.items[2 * plan.partitionCount.toNat + j]? =
      some (reductionNode plan (2 * plan.partitionCount.toNat + j) edge) := by
  rw [hlayout.nodes, List.getElem?_append_right (by rw [length_leafNodes]; omega),
    length_leafNodes, Nat.add_sub_cancel_left, List.getElem?_mapIdx, ← hlayout.edges, h]
  rfl

theorem validatePair_layout {cursor : TreeCursor} {level base active i : Nat}
    (hcursor : CursorAt cursor plan.partitionCount.toNat level base active) (hi : 2 * i < active)
    (hbound : base + active + (active + 1) / 2 ≤ plan.requiredScratchSlots.toNat)
    (hedge : graph.reductionEdges.items[cursor.edgeIndex.toNat + i]? =
      some (levelEdge plan level base active i)) :
    validateFixedGraphPair graph plan cursor i =
      Except.ok (levelEdge plan level base active i).outputSlot := by
  have hfits := hplan.fits
  have hscratch := hplan.scratch
  have hindex := hcursor.edgeIndex
  have hlt := layout_edge_index hlayout hedge
  have hnode := layout_reductionNode hlayout hedge
  have heq : treeEdge plan cursor (UInt32.ofNat (2 * i)) = levelEdge plan level base active i :=
    treeEdge_eq hcursor hi (by omega)
  have hspec : TreeEdge plan (base + active + i) (levelEdge plan level base active i) :=
    levelEdge_spec hi (by omega)
  have hl := hspec.left_lt
  have hr := hspec.right_lt
  have ho := hspec.output
  have hidx : (cursor.edgeIndex + UInt32.ofNat i).toNat = cursor.edgeIndex.toNat + i := by
    rw [UInt32.toNat_add, UInt32.toNat_ofNat']
    omega
  have hnodeIdx : plan.partitionCount * 2 + (cursor.edgeIndex + UInt32.ofNat i) =
      UInt32.ofNat (2 * plan.partitionCount.toNat + (cursor.edgeIndex.toNat + i)) := by
    rw [← UInt32.toNat_inj, UInt32.toNat_add, hidx, UInt32.toNat_mul, UInt32.toNat_ofNat',
      show (2 : UInt32).toNat = 2 from rfl]
    omega
  have hright : decide (UInt32.ofNat (2 * i) + 1 < cursor.activeCount) =
      !(levelEdge plan level base active i).rightIsPadding := by
    rw [← heq, treeEdge, Bool.not_not]
  simp only [validateFixedGraphPair, heq, hright, bind_eq_ok, require_eq_ok, fetch_eq_ok,
    pure_eq_ok, exists_const, hidx]
  refine ⟨?_, ⟨?_, ?_, ?_⟩, _, hedge, ⟨?_, rfl, rfl, rfl, hspec.operation, ?_⟩, ?_, ?_,
    reductionNode plan _ (levelEdge plan level base active i), ?_,
    ⟨rfl, hnodeIdx.symm, rfl, rfl, rfl, rfl, rfl, rfl, rfl, rfl⟩, trivial⟩
  · rw [UInt32.lt_iff_toNat_lt, hidx, hplan.edges]
    exact hlt
  · rw [UInt32.lt_iff_toNat_lt]
    omega
  · rw [UInt32.lt_iff_toNat_lt]
    omega
  · rw [UInt32.lt_iff_toNat_lt]
    omega
  · rw [levelEdge_level, hcursor.level_eq]
  · simp
  · rintro ⟨hno, hlaw⟩
    exact hlaw (hspec.no_padding (by simpa using hno))
  · rintro ⟨hyes, hlaw⟩
    obtain ⟨h₁, h₂⟩ := hspec.padding (by simpa using hyes)
    rcases hlaw with hlaw | hlaw
    · exact hlaw h₁
    · exact hlaw h₂
  · rw [hnodeIdx, toNat_ofNat_of_lt (by omega)]
    exact hnode

/-- Reading back one level. -/
theorem validatePairs_layout {cursor : TreeCursor} {level base active : Nat} (slot : UInt32)
    (hcursor : CursorAt cursor plan.partitionCount.toNat level base active)
    (hbound : base + active + (active + 1) / 2 ≤ plan.requiredScratchSlots.toNat)
    (hedges : ∀ i, i < (active + 1) / 2 →
      graph.reductionEdges.items[cursor.edgeIndex.toNat + i]? =
        (levelEdges plan level base active)[i]?) :
    forRange ((active + 1) / 2) (fun i _ => validateFixedGraphPair graph plan cursor i) slot =
      Except.ok (((levelEdges plan level base active).getLast?.map (·.outputSlot)).getD slot) := by
  obtain ⟨last, hrun, hlast⟩ := forRange_returns (n := (active + 1) / 2) (s := slot)
    (f := fun i _ => validateFixedGraphPair graph plan cursor i)
    (fun i last => last =
      (((levelEdges plan level base active).take i).getLast?.map (·.outputSlot)).getD slot)
    rfl
    (fun i last hi _ => by
      have hlevel : (levelEdges plan level base active)[i]? =
          some (levelEdge plan level base active i) := by
        rw [levelEdges, List.getElem?_map, List.getElem?_range hi]
        rfl
      refine ⟨_, validatePair_layout hplan hlayout hcursor (by omega) hbound
        (by rw [hedges i hi, hlevel]), ?_⟩
      rw [List.take_add_one, hlevel]
      simp)
  rw [List.take_of_length_le (by simp)] at hlast
  rw [hrun, hlast]

/-- Reading back all levels. -/
theorem validateLevels_layout (fuel : Nat) {cursor : TreeCursor} {level base active : Nat}
    (slot : UInt32) (hcursor : CursorAt cursor plan.partitionCount.toNat level base active)
    (hfuel : active ≤ fuel)
    (hbound : base + active + treeEdgeCount active = plan.requiredScratchSlots.toNat)
    (hedges : ∀ i, graph.reductionEdges.items[cursor.edgeIndex.toNat + i]? =
        (treeEdges plan level base active)[i]?) :
    validateFixedGraphLevels graph plan fuel cursor slot = Except.ok (plan.requiredEdges,
      ((treeEdges plan level base active).getLast?.map (·.outputSlot)).getD slot) := by
  have hfits := hplan.fits
  have hscratch := hplan.scratch
  have hone : (1 : UInt32).toNat = 1 := rfl
  have hdone : ∀ cursor' : TreeCursor, CursorAt cursor' plan.partitionCount.toNat level base active →
      treeEdgeCount active = 0 → cursor'.edgeIndex = plan.requiredEdges := by
    intro cursor' h h0
    have := h.edgeIndex
    have := hplan.edges
    rw [← UInt32.toNat_inj]
    omega
  induction fuel generalizing cursor slot level base active with
  | zero =>
      rw [treeEdges_of_lt (by omega), validateFixedGraphLevels,
        hdone cursor hcursor (treeEdgeCount_of_lt (by omega))]
      rfl
  | succ fuel ih =>
      rw [validateFixedGraphLevels]
      by_cases hactive : cursor.activeCount > 1
      · have h2 : 2 ≤ active := by
          have := UInt32.lt_iff_toNat_lt.mp hactive
          rw [hcursor.activeCount] at this
          omega
        have hcount := treeEdgeCount_of_ge h2
        have hhalf := toNat_half cursor.activeCount (by rw [hcursor.activeCount]; omega)
        rw [hcursor.activeCount] at hhalf
        have hnext := hcursor.next (by omega) (by omega)
        have hidx := hcursor.edgeIndex
        have hidx' := hnext.edgeIndex
        rw [treeEdges_of_ge h2] at hedges
        have hlevel := validatePairs_layout hplan hlayout slot hcursor (by omega) fun i hi => by
          rw [hedges i, List.getElem?_append_left (by simpa using hi)]
        have hrest := ih (((levelEdges plan level base active).getLast?.map (·.outputSlot)).getD
            slot) hnext (by omega) (by omega)
          (fun i => by
            have := hedges ((active + 1) / 2 + i)
            rw [List.getElem?_append_right (by simp), length_levelEdges,
              Nat.add_sub_cancel_left] at this
            rw [← this]
            congr 1
            omega)
          (fun cursor' h h0 => by
            have := h.edgeIndex
            have := hplan.edges
            rw [← UInt32.toNat_inj]
            omega)
        simp only [if_pos hactive, hhalf, hlevel, ok_bind, hrest]
        rw [treeEdges_of_ge h2, List.getLast?_append]
        rcases (treeEdges plan (level + 1) (base + active) ((active + 1) / 2)).getLast? with - | e
        · rfl
        · rfl
      · have hlt : active < 2 := by
          have := mt UInt32.lt_iff_toNat_lt.mpr hactive
          rw [hcursor.activeCount] at this
          omega
        rw [if_neg hactive, treeEdges_of_lt hlt,
          hdone cursor hcursor (treeEdgeCount_of_lt hlt)]
        rfl

theorem validatePartitionNode_layout {p : Nat} (hp : p < plan.partitionCount.toNat) :
    validateFixedGraphPartitionNode graph plan p = Except.ok () := by
  have hfits := hplan.fits
  have hdouble : UInt32.ofNat p * 2 = UInt32.ofNat (2 * p) := by
    rw [← UInt32.toNat_inj, UInt32.toNat_mul, toNat_ofNat_of_lt (by omega),
      toNat_ofNat_of_lt (by omega), show (2 : UInt32).toNat = 2 from rfl]
    omega
  have hsucc : UInt32.ofNat (2 * p) + 1 = UInt32.ofNat (2 * p + 1) := by
    rw [UInt32.ofNat_add]
    rfl
  have hslot : graph.partitionFoldSlots.items[p]? = some (UInt32.ofNat p) := by
    rw [hlayout.slots, leafSlots, List.getElem?_map, List.getElem?_range hp]
    rfl
  have hnode : ∀ i, i < 2 * plan.partitionCount.toNat → graph.nodes.items[i]? =
      some (partitionNode plan (if i % 2 = 0 then .workerLocalPartial else .globalOrderedSlot) i
        (UInt32.ofNat (i / 2))) := by
    intro i hi
    rw [hlayout.nodes, List.getElem?_append_left (by rw [length_leafNodes]; exact hi),
      getElem?_leafNodes _ hi]
  have hworker := hnode (2 * p) (by omega)
  have hordered := hnode (2 * p + 1) (by omega)
  rw [if_pos (by omega), show 2 * p / 2 = p by omega] at hworker
  rw [if_neg (by omega), show (2 * p + 1) / 2 = p by omega] at hordered
  simp only [validateFixedGraphPartitionNode, hdouble, hsucc, bind_eq_ok, require_eq_ok,
    fetch_eq_ok, exists_const, toNat_ofNat_of_lt (show 2 * p < 2 ^ 32 by omega),
    toNat_ofNat_of_lt (show 2 * p + 1 < 2 ^ 32 by omega)]
  exact ⟨_, hslot, rfl, _, hworker, _, hordered, rfl, rfl, rfl, rfl, rfl, rfl, rfl, rfl, rfl, rfl,
    rfl, rfl⟩

theorem validateShape_layout (hlaw : AdmittedLaw plan) :
    validateFixedGraphShape graph plan = Except.ok () := by
  have hfits := hplan.fits
  have hsup : plan.primitive.supported = true := by
    have := hlaw.supported
    rw [isSupportedFoldOperation, Bool.and_eq_true] at this
    rw [hlaw.primitive]
    exact this.1
  simp only [validateFixedGraphShape, bind_eq_ok, require_eq_ok, exists_const]
  refine ⟨⟨by rw [hlayout.primitiveStandardized]; exact hsup, hsup⟩, hlayout.partitionCount,
    ?_, ?_, ?_, hlayout.scratchSlotCount⟩
  · rw [hlayout.slots, leafSlots, List.length_map, List.length_range]
  · rw [hlayout.nodes, List.length_append, length_leafNodes, List.length_mapIdx, length_treeEdges,
      hplan.nodes]
  · rw [hlayout.edges, length_treeEdges, hplan.edges]

/-- **The builder's own check passes on every graph with the layout of the tree.** -/
theorem validateBuilt_layout (hlaw : AdmittedLaw plan) :
    validateBuiltFixedBinaryTreeGraph graph plan = Except.ok (builtResult plan graph) := by
  have hscratch := hplan.scratch
  obtain ⟨_, hnodes, -⟩ := forRange_returns (fun _ _ => True)
    (f := fun i (_ : Unit) => validateFixedGraphPartitionNode graph plan i) (s := ())
    (n := plan.partitionCount.toNat) trivial
    (fun i _ hi _ => ⟨(), validatePartitionNode_layout hplan hlayout hi, trivial⟩)
  have hlevels := validateLevels_layout hplan hlayout plan.partitionCount.toNat
    (plan.partitionCount - 1) (cursorAt_start plan.partitionCount) le_rfl (by omega)
    (fun i => by rw [hlayout.edges, TreeCursor.start, UInt32.toNat_zero, Nat.zero_add])
  rw [← hlayout.finalSlot] at hlevels
  simp only [validateBuiltFixedBinaryTreeGraph, validateFixedGraphReductionEdges, bind_eq_ok,
    require_eq_ok, pure_eq_ok, exists_const]
  exact ⟨_, validateShape_layout hplan hlayout hlaw, _, hnodes, _, hlevels, ⟨rfl, rfl⟩, rfl⟩

end Built

/-! ### Builds -/

section Build

variable {graph : FoldGraph} {partitionCount : UInt32} {operation : FoldOperation}
  {policy : StrictFloatReductionPolicy} {allocation : AllocationPolicy}

/-- What an admitted plan is known to satisfy. -/
theorem admitPlan_facts
    (h : admitPlan graph (makePlan partitionCount operation policy allocation) = Except.ok ()) :
    PlanCounts (makePlan partitionCount operation policy allocation) ∧
      AdmittedLaw (makePlan partitionCount operation policy allocation) := by
  simp only [admitPlan, bind_eq_ok, require_eq_ok, exists_const] at h
  obtain ⟨hsup, hvalid, hreduction, -, ⟨hnodes, -⟩, -⟩ := h
  refine ⟨planCounts hnodes, rfl, hsup, fun hfloat => ?_⟩
  have hfloat' : (makePlan partitionCount operation policy allocation).primitive.admitsFloatingPoint
      = true := hfloat
  exact ⟨by simpa [hfloat'] using hvalid, by simpa [hfloat'] using hreduction⟩

/-- The graph after the build entered that outcome. -/
def FoldGraph.checked (plan : BuildPlan) (graph : FoldGraph) : FoldGraph :=
  { graph with
    scratchSlotCount := plan.requiredScratchSlots
    finalSlot := graph.finalSlot
    dagValidated := true
    slotBoundsValidated := true
    paddingLawValidated := true }

theorem Layout.checked {plan : BuildPlan} {graph : FoldGraph} (h : Layout plan graph) :
    Layout plan (graph.checked plan) :=
  { operation := h.operation
    strictFloatReduction := h.strictFloatReduction
    partitionCount := h.partitionCount
    fixedTopologicalOrder := h.fixedTopologicalOrder
    primitiveStandardized := h.primitiveStandardized
    floatingPointAllowed := h.floatingPointAllowed
    strictFloatingPoint := h.strictFloatingPoint
    scratchSlotCount := rfl
    slots := h.slots
    edges := h.edges
    nodes := h.nodes
    finalSlot := h.finalSlot }

/-- An admitted build succeeds, with the layout of the tree. -/
theorem buildFoldGraph_returns
    (h : admitPlan graph (makePlan partitionCount operation policy allocation) = Except.ok ()) :
    ∃ build built,
      buildFoldGraph graph partitionCount operation policy allocation =
        Except.ok (build, built) ∧
      build = buildSuccess built (makePlan partitionCount operation policy allocation)
        (builtResult (makePlan partitionCount operation policy allocation) built) ∧
      Layout (makePlan partitionCount operation policy allocation) built := by
  obtain ⟨hplan, hlaw⟩ := admitPlan_facts h
  obtain ⟨g, hrun, hlayout⟩ := populate_layout hplan
    (reserveForPlan graph (makePlan partitionCount operation policy allocation))
  have hcheck := validateBuilt_layout hplan hlayout hlaw
  let plan := makePlan partitionCount operation policy allocation
  refine ⟨buildSuccess (g.checked plan) plan (builtResult plan g), g.checked plan, ?_, rfl,
    hlayout.checked⟩
  simp only [buildFoldGraph, h, hrun, hcheck, Checked.mapReject, ok_bind]
  rfl

/-- What a successful build is known to satisfy. -/
theorem buildFoldGraph_layout {build : FoldGraphBuild} {built : FoldGraph}
    (h : buildFoldGraph graph partitionCount operation policy allocation =
      Except.ok (build, built)) :
    admitPlan graph (makePlan partitionCount operation policy allocation) = Except.ok () ∧
      build = buildSuccess built (makePlan partitionCount operation policy allocation)
        (builtResult (makePlan partitionCount operation policy allocation) built) ∧
      Layout (makePlan partitionCount operation policy allocation) built := by
  have hallowed : admitPlan graph (makePlan partitionCount operation policy allocation) =
      Except.ok () := by
    simp only [buildFoldGraph, bind_eq_ok] at h
    obtain ⟨_, hallowed, -⟩ := h
    exact hallowed
  obtain ⟨build', built', h', hreport, hlayout⟩ := buildFoldGraph_returns hallowed
  rw [h, Except.ok.injEq, Prod.mk.injEq] at h'
  obtain ⟨rfl, rfl⟩ := h'
  exact ⟨hallowed, hreport, hlayout⟩

end Build

end RunD
