/-
What a built fold graph computes.

The value of a built graph is the balanced pairwise tree over the partition
values, each odd level padded with the operation's padding word
(`graphValue_layout`).  For the associative operations padded with their
identity the tree is the fold from the left, and that is what the ordered fold
returns as well.

The padding word of the fixed binary-tree hash is not its identity: the tree
padded with the identity is a different word (`foldGraphReduce_hash_padding`).
-/
import RunD.FoldTreeAccept
import RunD.PairwiseTree

namespace RunD

variable {plan : BuildPlan}

/-! ### The value of the tree -/

/-- The effect of one edge on memory. -/
def applyEdge (graph : FoldGraphView) (memory : Memory) (edge : FoldGraphEdge) : Memory :=
  Function.update memory edge.outputSlot.toNat (edgeValue graph memory edge)

theorem memoryAfter_eq_foldl (graph : FoldGraphView) (values : List UInt64) (i : Nat) :
    memoryAfter graph values i = (graph.edges.take i).foldl (applyEdge graph)
      (partitionMemory graph values graph.slots.length) := by
  induction i with
  | zero => rfl
  | succ i ih =>
      rw [List.take_add_one, memoryAfter]
      rcases graph.edges[i]? with - | edge
      · simpa using ih
      · simp [ih, applyEdge]

/-- `memory` holds the items of `xs` in the slots from `base` on. -/
def Holds (memory : Memory) (base : Nat) (xs : List UInt64) : Prop :=
  ∀ i v, xs[i]? = some v → memory (base + i) = v

/-- The operation of a plan on two words. -/
def planCombine (plan : BuildPlan) (left right : UInt64) : UInt64 :=
  combineFoldValues plan.operation left right plan.strictFloatReduction

section Value

variable {view : FoldGraphView} (hop : view.operation = plan.operation)
  (hpolicy : view.strictFloatReduction = plan.strictFloatReduction)
include hop hpolicy

/-- Edge `i` of a level computes item `i` of the next level. -/
theorem edgeValue_levelEdge {memory : Memory} {level base i : Nat} {xs : List UInt64} {v : UInt64}
    (hbound : base + xs.length < 2 ^ 32) (hmem : Holds memory base xs)
    (hv : (pairUp (planCombine plan) plan.primitive.paddingValue xs)[i]? = some v) :
    edgeValue view memory (levelEdge plan level base xs.length i) = v := by
  rw [getElem?_pairUp, Option.map_eq_some_iff] at hv
  obtain ⟨a, ha, rfl⟩ := hv
  have hi : 2 * i < xs.length := (List.getElem?_eq_some_iff.mp ha).1
  have hleft := toNat_ofNat_of_lt (show base + 2 * i < 2 ^ 32 by omega)
  rw [edgeValue, hop, hpolicy]
  unfold levelEdge
  split
  · next hr =>
    have hright := toNat_ofNat_of_lt (show base + 2 * i + 1 < 2 ^ 32 by omega)
    have hb := List.getElem?_eq_getElem hr
    simp only [hleft, hright, Bool.false_eq_true, if_false, hb, Option.getD_some, planCombine]
    rw [hmem _ _ ha, Nat.add_assoc, hmem _ _ hb]
  · next hr =>
    have hb : xs[2 * i + 1]? = none := List.getElem?_eq_none (by omega)
    simp only [hleft, if_true, hb, Option.getD_none, planCombine]
    rw [hmem _ _ ha]

/-- One level: its outputs hold the next level. -/
theorem foldl_levelEdges {memory : Memory} {level base : Nat} {xs : List UInt64}
    (hbound : base + xs.length + (xs.length + 1) / 2 < 2 ^ 32) (hmem : Holds memory base xs) :
    Holds ((levelEdges plan level base xs.length).foldl (applyEdge view) memory)
      (base + xs.length) (pairUp (planCombine plan) plan.primitive.paddingValue xs) := by
  -- after `n` edges the level is still there, and so are the first `n` outputs
  have hinv : ∀ n ≤ (xs.length + 1) / 2, ∀ memory',
      memory' = ((List.range n).map (levelEdge plan level base xs.length)).foldl
        (applyEdge view) memory →
      Holds memory' base xs ∧ ∀ i v, i < n →
        (pairUp (planCombine plan) plan.primitive.paddingValue xs)[i]? = some v →
        memory' (base + xs.length + i) = v := by
    intro n hn
    induction n with
    | zero =>
        rintro memory' rfl
        exact ⟨hmem, fun i v hi => absurd hi (Nat.not_lt_zero i)⟩
    | succ n ih =>
        rintro memory' rfl
        obtain ⟨hlevel, houts⟩ := ih (by omega) _ rfl
        rw [List.range_succ, List.map_append, List.foldl_append]
        generalize ((List.range n).map (levelEdge plan level base xs.length)).foldl
          (applyEdge view) memory = m at hlevel houts
        have hout : (levelEdge plan level base xs.length n).outputSlot.toNat =
            base + xs.length + n := (levelEdge_spec (by omega) (by omega)).output
        simp only [List.map_cons, List.map_nil, List.foldl_cons, List.foldl_nil, applyEdge, hout]
        refine ⟨fun i v hv => ?_, fun i v hi hv => ?_⟩
        · have := (List.getElem?_eq_some_iff.mp hv).1
          rw [Function.update_of_ne (by omega)]
          exact hlevel i v hv
        · by_cases hin : i = n
          · subst hin
            rw [Function.update_self]
            exact edgeValue_levelEdge hop hpolicy (by omega) hlevel hv
          · rw [Function.update_of_ne (by omega)]
            exact houts i v (by omega) hv
  intro i v hv
  have hi : i < (xs.length + 1) / 2 := by
    have := (List.getElem?_eq_some_iff.mp hv).1
    rwa [length_pairUp] at this
  exact (hinv _ le_rfl _ rfl).2 i v hi hv

/-- All levels: the last slot of the tree holds the balanced pairwise tree. -/
theorem foldl_treeEdges {memory : Memory} {level base active : Nat} {xs : List UInt64}
    (hactive : xs.length = active) (hpos : 0 < active)
    (hbound : base + active + treeEdgeCount active < 2 ^ 32) (hmem : Holds memory base xs) :
    pairwiseTree (planCombine plan) plan.primitive.paddingValue xs =
      some ((treeEdges plan level base active).foldl (applyEdge view) memory
        (base + active + treeEdgeCount active - 1)) := by
  induction level, base, active using treeEdges.induct generalizing memory xs with
  | case1 level base active hge ih =>
      have hcount := treeEdgeCount_of_ge hge
      subst hactive
      rw [pairwiseTree_pairUp _ _ hge, treeEdges_of_ge hge, List.foldl_append,
        ih (length_pairUp _ _ _) (by omega) (by omega)
          (foldl_levelEdges hop hpolicy (by omega) hmem), hcount, Nat.add_assoc (base + xs.length)]
  | case2 level base active hlt =>
      obtain ⟨a, rfl⟩ : ∃ a, xs = [a] := List.length_eq_one_iff.mp (by omega)
      rw [List.length_singleton] at hactive
      subst hactive
      rw [treeEdges_of_lt (by omega), treeEdgeCount_of_lt (by omega), pairwiseTree]
      congr 1
      exact (hmem 0 a rfl).symm

end Value

/-- The partitions put their values in the first slots. -/
theorem holds_partitionMemory {view : FoldGraphView} {values : List UInt64}
    (hslots : view.slots = List.range values.length) :
    Holds (partitionMemory view values view.slots.length) 0 values := by
  have hinv : ∀ n ≤ values.length, ∀ i v, i < n → values[i]? = some v →
      partitionMemory view values n i = v := by
    intro n hn
    induction n with
    | zero => exact fun i v hi => absurd hi (Nat.not_lt_zero i)
    | succ n ih =>
        intro i v hi hv
        have hslot : view.slots[n]? = some n := by
          rw [hslots, List.getElem?_range (by omega)]
        have hvalue := List.getElem?_eq_getElem (show n < values.length by omega)
        rw [partitionMemory, hslot, hvalue]
        show Function.update (partitionMemory view values n) n values[n] i = v
        by_cases hin : i = n
        · subst hin
          rw [Function.update_self]
          rw [hvalue, Option.some.injEq] at hv
          exact hv
        · rw [Function.update_of_ne hin]
          exact ih (by omega) i v (by omega) hv
  intro i v hv
  have hi := (List.getElem?_eq_some_iff.mp hv).1
  rw [hslots, List.length_range, Nat.zero_add]
  exact hinv _ le_rfl i v hi hv

/-- **The value of a graph with the layout of the tree is the balanced pairwise tree.** -/
theorem graphValue_layout {graph : FoldGraph} (hplan : PlanCounts plan)
    (hlayout : Layout plan graph) {values : List UInt64}
    (hvalues : values.length = plan.partitionCount.toNat) :
    pairwiseTree (planCombine plan) plan.primitive.paddingValue values =
      some (graphValue (viewFoldGraph graph) values) := by
  have hpos := hplan.pos
  have hfits := hplan.fits
  have hslots := view_slots hplan hlayout
  have hedges := view_edges hplan hlayout
  have hmem : Holds (partitionMemory (viewFoldGraph graph) values
      (viewFoldGraph graph).slots.length) 0 values :=
    holds_partitionMemory (by rw [hslots, hvalues])
  have hfinal : (viewFoldGraph graph).finalSlot.toNat =
      0 + plan.partitionCount.toNat + treeEdgeCount plan.partitionCount.toNat - 1 := by
    have hlen := length_treeEdges plan 0 0 plan.partitionCount.toNat
    have hlast := layout_final hplan hlayout
    rw [FoldGraphView.finalSlotAfter, List.take_length, view_slots_items hplan hlayout] at hlast
    rw [List.getLast?_eq_getElem?] at hlast
    rcases hedge : (viewFoldGraph graph).edges[(viewFoldGraph graph).edges.length - 1]? with - | e
    · rw [hedge, Option.map_none, Option.none_or, List.getLast?_eq_getElem?, leafSlots,
        List.getElem?_map, List.length_map, List.length_range,
        List.getElem?_range (by omega)] at hlast
      have hzero : treeEdgeCount plan.partitionCount.toNat = 0 := by
        have := List.getElem?_eq_none_iff.mp hedge
        rw [hedges, hlen] at this
        omega
      rw [← Option.some.inj hlast, toNat_ofNat_of_lt (by omega)]
      omega
    · rw [hedge, Option.map_some, Option.some_or, Option.some.injEq] at hlast
      have hlt := (List.getElem?_eq_some_iff.mp hedge).1
      have hout := (view_treeEdge hplan hlayout hedge).output
      rw [hedges, hlen] at hout hlt
      rw [← hlast, hout]
      omega
  rw [graphValue, memoryAfter_eq_foldl, List.take_length, hedges, hfinal]
  have hop : (viewFoldGraph graph).operation = plan.operation := hlayout.operation
  exact foldl_treeEdges hop hlayout.strictFloatReduction hvalues hpos (by omega) hmem

/-! ### The associative operations -/

theorem saturatingAdd_toNat (a b : UInt64) :
    (saturatingAdd a b).toNat = min (a.toNat + b.toNat) (2 ^ 64 - 1) := by
  have ha := a.toNat_lt
  have hb := b.toNat_lt
  have htop : (0xFFFFFFFFFFFFFFFF : UInt64).toNat = 2 ^ 64 - 1 := rfl
  have hsub : (0xFFFFFFFFFFFFFFFF - b).toNat = 2 ^ 64 - 1 - b.toNat := by
    rw [UInt64.toNat_sub_of_le _ _ (by rw [UInt64.le_iff_toNat_le]; omega)]
    rfl
  unfold saturatingAdd
  split
  · next h =>
    rw [gt_iff_lt, UInt64.lt_iff_toNat_lt, hsub] at h
    omega
  · next h =>
    rw [gt_iff_lt, UInt64.lt_iff_toNat_lt, hsub] at h
    rw [UInt64.toNat_add]
    omega

/-- The operations whose tree is a plain fold. -/
def IsPlainFold (operation : FoldOperation) : Prop :=
  operation = .saturatingAdd ∨ operation = .xor ∨ operation = .max ∨ operation = .min

section Plain

variable {operation : FoldOperation} (policy : StrictFloatReductionPolicy)
  (hplain : IsPlainFold operation)
include hplain

theorem combine_assoc (a b c : UInt64) :
    combineFoldValues operation (combineFoldValues operation a b policy) c policy =
      combineFoldValues operation a (combineFoldValues operation b c policy) policy := by
  rcases hplain with rfl | rfl | rfl | rfl
  · simp only [combineFoldValues, ← UInt64.toNat_inj, saturatingAdd_toNat]
    omega
  · exact UInt64.xor_assoc a b c
  · simp only [combineFoldValues, ← UInt64.toNat_inj, apply_ite UInt64.toNat,
      UInt64.lt_iff_toNat_lt]
    grind
  · simp only [combineFoldValues, ← UInt64.toNat_inj, apply_ite UInt64.toNat,
      UInt64.lt_iff_toNat_lt]
    grind

theorem combine_padding (a : UInt64) :
    combineFoldValues operation a (foldPaddingValue operation) policy = a := by
  have ha := a.toNat_lt
  rcases hplain with rfl | rfl | rfl | rfl
  · rw [← UInt64.toNat_inj, combineFoldValues, saturatingAdd_toNat,
      show (foldPaddingValue .saturatingAdd).toNat = 0 from rfl]
    omega
  · exact UInt64.xor_zero
  · rw [combineFoldValues, show foldPaddingValue .max = 0 from rfl,
      if_neg (by rw [UInt64.lt_iff_toNat_lt]; simp)]
  · rw [combineFoldValues, show foldPaddingValue .min = 0xFFFFFFFFFFFFFFFF from rfl]
    split
    · next h =>
      rw [UInt64.lt_iff_toNat_lt, show (0xFFFFFFFFFFFFFFFF : UInt64).toNat = 2 ^ 64 - 1 from rfl] at h
      omega
    · rfl

theorem combine_comm (a b : UInt64) :
    combineFoldValues operation a b policy = combineFoldValues operation b a policy := by
  rcases hplain with rfl | rfl | rfl | rfl
  · simp only [combineFoldValues, ← UInt64.toNat_inj, saturatingAdd_toNat]
    omega
  · exact UInt64.xor_comm a b
  · simp only [combineFoldValues, ← UInt64.toNat_inj, apply_ite UInt64.toNat,
      UInt64.lt_iff_toNat_lt]
    grind
  · simp only [combineFoldValues, ← UInt64.toNat_inj, apply_ite UInt64.toNat,
      UInt64.lt_iff_toNat_lt]
    grind

/-- A plain operation does not look at the policy. -/
theorem combine_policy (policy' : StrictFloatReductionPolicy) (a b : UInt64) :
    combineFoldValues operation a b policy = combineFoldValues operation a b policy' := by
  rcases hplain with rfl | rfl | rfl | rfl <;> rfl

/-- The tree of a plain operation is the fold from the left, from the identity on. -/
theorem pairwiseTree_plain {values : List UInt64} (hne : values ≠ []) :
    pairwiseTree (fun l r => combineFoldValues operation l r policy) (foldPaddingValue operation)
        values =
      some (values.foldl (fun l r => combineFoldValues operation l r policy)
        (foldIdentityValue operation)) := by
  obtain ⟨a, xs, rfl⟩ := List.exists_cons_of_ne_nil hne
  have hid : foldIdentityValue operation = foldPaddingValue operation := by
    refine (foldPaddingValue_eq_identity ?_).symm
    rcases hplain with rfl | rfl | rfl | rfl <;> simp
  rw [pairwiseTree_eq_foldl (combine_assoc policy hplain) (combine_padding policy hplain),
    List.foldl_cons, hid, combine_comm policy hplain, combine_padding policy hplain]

end Plain

/-! ### Reducing a built graph -/

/-- A successful fold with the given value. -/
def foldPass (value : UInt64) (slotCount : UInt32) (operation : FoldOperation) : FoldResult :=
  { ok := true, reason := "pass", value := value, slotCount := slotCount, operation := operation }

section Reduce

variable {graph built : FoldGraph} {n : UInt32} {operation : FoldOperation}
  {policy : StrictFloatReductionPolicy} {allocation : AllocationPolicy} {build : FoldGraphBuild}
  (hbuild : buildFoldGraph graph n operation policy allocation = Except.ok (build, built))
  {values : List UInt64} (hvalues : values.length = n.toNat)
include hbuild

theorem buildFoldGraph_accepted :
    Accepted (viewFoldGraph built) (foldGraphFixedBinaryTreeScratchSlotCount n) ∧
      (viewFoldGraph built).partitionCount = n ∧ (viewFoldGraph built).operation = operation := by
  obtain ⟨hallowed, -, hlayout⟩ := buildFoldGraph_layout hbuild
  obtain ⟨hplan, hlaw⟩ := admitPlan_facts hallowed
  exact ⟨layout_accepted hplan hlayout hlaw, hlayout.partitionCount, hlayout.operation⟩

include hvalues

theorem graphValue_built :
    pairwiseTree (fun l r => combineFoldValues operation l r policy) (foldPaddingValue operation)
      values = some (graphValue (viewFoldGraph built) values) := by
  obtain ⟨hallowed, -, hlayout⟩ := buildFoldGraph_layout hbuild
  obtain ⟨hplan, -⟩ := admitPlan_facts hallowed
  rw [← describe_paddingValue]
  exact graphValue_layout hplan hlayout hvalues

/-- A build with any graph and policy can be repeated from an empty graph that may grow. -/
theorem buildFoldGraph_fresh : ∃ build' built',
    buildFoldGraph {} n operation policy .allowGrowth = Except.ok (build', built') ∧
      graphValue (viewFoldGraph built') values = graphValue (viewFoldGraph built) values := by
  have hallowed : admitPlan {} (makePlan n operation policy .allowGrowth) = Except.ok () := by
    have := (buildFoldGraph_layout hbuild).1
    simp only [admitPlan, bind_eq_ok, require_eq_ok, exists_const] at this ⊢
    obtain ⟨h₁, h₂, h₃, h₄, h₅, -⟩ := this
    exact ⟨h₁, h₂, h₃, h₄, h₅, by simp [makePlan]⟩
  obtain ⟨build', built', hbuild', -⟩ := buildFoldGraph_returns hallowed
  refine ⟨build', built', hbuild', ?_⟩
  rw [← Option.some.injEq, ← graphValue_built hbuild' hvalues, graphValue_built hbuild hvalues]

/-- The ordered fold returns the value of the graph built for its values. -/
theorem foldStrictOrderedSlots_built : foldStrictOrderedSlots values operation policy =
    Except.ok (foldPass (graphValue (viewFoldGraph built) values) n operation) := by
  obtain ⟨hplan, hlaw⟩ := admitPlan_facts (buildFoldGraph_layout hbuild).1
  obtain ⟨build', built', hbuild', hvalue⟩ := buildFoldGraph_fresh hbuild hvalues
  obtain ⟨hacc, hcount, -⟩ := buildFoldGraph_accepted hbuild'
  have hpartitions : values.length = (viewFoldGraph built').partitionCount.toNat := by
    rw [hcount, hvalues]
  obtain ⟨cells, hrun⟩ := foldGraphReduceSlots_accepted hacc hpartitions Vec.empty .allowGrowth
    (by simp)
  have hlen : UInt32.ofNat values.length = n := by rw [hvalues, UInt32.ofNat_toNat]
  have hne : values.isEmpty = false := by
    have hpos : 0 < n.toNat := hplan.pos
    rw [List.isEmpty_eq_false_iff]
    rintro rfl
    rw [← hvalues] at hpos
    exact absurd hpos (Nat.lt_irrefl 0)
  have hsup : isSupportedFoldOperation operation = true := hlaw.supported
  have hstrict : ¬ (foldOperationAllowsFloatingPoint operation = true ∧
      strictFloatReductionValid operation policy = false) := by
    rintro ⟨hfloat, hinvalid⟩
    have hvalid : strictFloatReductionValid operation policy = true := (hlaw.law hfloat).2
    rw [hinvalid] at hvalid
    exact absurd hvalid Bool.false_ne_true
  simp only [foldStrictOrderedSlots, hne, hlen, hbuild', hrun, hvalue, Checked.mapReject, require,
    hsup, hstrict, if_pos, not_false_eq_true, Bool.false_eq_true, if_false, ok_bind]
  rfl

/-- The plain operations need no floating-point law, so the ordered fold without one builds the
graph as well. -/
theorem foldOrderedSlots_built (hplain : IsPlainFold operation) :
    foldOrderedSlots values operation =
      Except.ok (foldPass (graphValue (viewFoldGraph built) values) n operation) := by
  have hfloat : (describeFoldOperation operation).admitsFloatingPoint = false := by
    rcases hplain with rfl | rfl | rfl | rfl <;> rfl
  have hallowed : admitPlan {} (makePlan n operation {} .allowGrowth) = Except.ok () := by
    have := (buildFoldGraph_layout hbuild).1
    simp only [admitPlan, bind_eq_ok, require_eq_ok, exists_const] at this ⊢
    obtain ⟨h₁, -, -, h₄, h₅, -⟩ := this
    exact ⟨h₁, by simp [makePlan, hfloat], by simp [makePlan, hfloat], h₄, h₅, by simp [makePlan]⟩
  obtain ⟨build', built', hbuild', -⟩ := buildFoldGraph_returns hallowed
  have hvalue : graphValue (viewFoldGraph built') values =
      graphValue (viewFoldGraph built) values := by
    have h₁ := graphValue_built hbuild hvalues
    have h₂ := graphValue_built hbuild' hvalues
    simp only [combine_policy policy hplain {}] at h₁
    rw [h₁, Option.some.injEq] at h₂
    exact h₂.symm
  rw [foldOrderedSlots, foldStrictOrderedSlots_built hbuild' hvalues, hvalue]

end Reduce

/-- **A built fold graph computes the balanced pairwise tree.**  Odd levels are padded with the
operation's padding word, which is its identity for every operation but the hash.  Every form of
the reduction returns that value, and so does the ordered fold; for the plain operations it is the
fold of the values from the left. -/
theorem foldGraphReduce_pairwiseTree {graph built : FoldGraph} {n : UInt32}
    {operation : FoldOperation} {policy : StrictFloatReductionPolicy}
    {allocation : AllocationPolicy} {build : FoldGraphBuild}
    (hbuild : buildFoldGraph graph n operation policy allocation = Except.ok (build, built))
    (values : List UInt64) (hvalues : values.length = n.toNat) :
    ∃ value,
      pairwiseTree (fun l r => combineFoldValues operation l r policy)
        (foldPaddingValue operation) values = some value ∧
      (operation ≠ .fixedBinaryTreeHash →
        foldPaddingValue operation = foldIdentityValue operation) ∧
      (∀ scratch : List UInt64, build.scratchSlotCount.toNat ≤ scratch.length →
        ∃ left, foldGraphReduce (viewFoldGraph built) values scratch =
          Except.ok (foldPass value n operation, left)) ∧
      (∀ (scratch : Vec UInt64) (growth : AllocationPolicy),
        (growth = .noGrowth → build.scratchSlotCount.toNat ≤ scratch.capacity) →
        ∃ left, foldGraphReduceSlots (viewFoldGraph built) values scratch growth =
          Except.ok (foldPass value n operation, left)) ∧
      foldStrictOrderedSlots values operation policy =
        Except.ok (foldPass value n operation) ∧
      (IsPlainFold operation →
        value = values.foldl (fun l r => combineFoldValues operation l r policy)
          (foldIdentityValue operation) ∧
        foldOrderedSlots values operation = Except.ok (foldPass value n operation)) := by
  obtain ⟨hacc, hcount, hop⟩ := buildFoldGraph_accepted hbuild
  have hscratch : build.scratchSlotCount = foldGraphFixedBinaryTreeScratchSlotCount n := by
    rw [(buildFoldGraph_layout hbuild).2.1]
    rfl
  have hlen : values.length = (viewFoldGraph built).partitionCount.toNat := by
    rw [hcount, hvalues]
  refine ⟨graphValue (viewFoldGraph built) values, graphValue_built hbuild hvalues,
    foldPaddingValue_eq_identity, fun scratch hle => ?_, fun scratch growth hroom => ?_,
    foldStrictOrderedSlots_built hbuild hvalues, fun hplain => ⟨?_, ?_⟩⟩
  · rw [hscratch] at hle
    obtain ⟨cells, hrun⟩ := foldGraphReduce_accepted hacc hlen hle rfl
    exact ⟨_, by rw [hrun, hcount, hop]; rfl⟩
  · rw [hscratch] at hroom
    obtain ⟨cells, hrun⟩ := foldGraphReduceSlots_accepted hacc hlen scratch growth hroom
    exact ⟨_, by rw [hrun, hcount, hop]; rfl⟩
  · have hne : values ≠ [] := by
      have hpos : 0 < n.toNat := (admitPlan_facts (buildFoldGraph_layout hbuild).1).1.pos
      rintro rfl
      rw [← hvalues] at hpos
      exact absurd hpos (Nat.lt_irrefl 0)
    have htree := graphValue_built hbuild hvalues
    rw [pairwiseTree_plain policy hplain hne, Option.some.injEq] at htree
    exact htree.symm
  · exact foldOrderedSlots_built hbuild hvalues hplain

theorem foldGraphReduce_pairwiseTree_three :
    ∃ build built, buildFoldGraph {} 3 .saturatingAdd {} .allowGrowth = Except.ok (build, built) ∧
      (∃ left, foldGraphReduceSlots (viewFoldGraph built) [1, 2, 0xFFFFFFFFFFFFFFFF] Vec.empty
        .allowGrowth = Except.ok (foldPass 0xFFFFFFFFFFFFFFFF 3 .saturatingAdd, left)) ∧
      foldOrderedSlots [1, 2, 0xFFFFFFFFFFFFFFFF] .saturatingAdd =
        Except.ok (foldPass 0xFFFFFFFFFFFFFFFF 3 .saturatingAdd) := by
  have hallowed : admitPlan {} (makePlan 3 .saturatingAdd {} .allowGrowth) = Except.ok () := by
    decide
  obtain ⟨build, built, hbuild, -⟩ := buildFoldGraph_returns hallowed
  obtain ⟨value, -, -, -, hslots, -, hplain⟩ :=
    foldGraphReduce_pairwiseTree hbuild [1, 2, 0xFFFFFFFFFFFFFFFF] rfl
  obtain ⟨hvalue, hordered⟩ := hplain (Or.inl rfl)
  have hmax : value = 0xFFFFFFFFFFFFFFFF := by
    rw [hvalue]
    decide
  rw [hmax] at hslots hordered
  exact ⟨build, built, hbuild, hslots Vec.empty .allowGrowth (by simp), hordered⟩

/-- The hash over three slots: the reduction succeeds, and its value is not the tree padded with
the identity of the hash. -/
theorem foldGraphReduce_hash_padding :
    ∃ build built value left,
      buildFoldGraph {} 3 .fixedBinaryTreeHash {} .allowGrowth = Except.ok (build, built) ∧
      foldGraphReduceSlots (viewFoldGraph built) [1, 2, 3] Vec.empty .allowGrowth =
        Except.ok (foldPass value 3 .fixedBinaryTreeHash, left) ∧
      pairwiseTree (fun l r => combineFoldValues .fixedBinaryTreeHash l r {})
        (foldIdentityValue .fixedBinaryTreeHash) [1, 2, 3] ≠ some value := by
  have hallowed : admitPlan {} (makePlan 3 .fixedBinaryTreeHash {} .allowGrowth) =
      Except.ok () := by decide
  obtain ⟨build, built, hbuild, -⟩ := buildFoldGraph_returns hallowed
  obtain ⟨hacc, hcount, hop⟩ := buildFoldGraph_accepted hbuild
  have hlen : ([1, 2, 3] : List UInt64).length = (viewFoldGraph built).partitionCount.toNat := by
    rw [hcount]
    rfl
  obtain ⟨cells, hrun⟩ := foldGraphReduceSlots_accepted hacc hlen Vec.empty .allowGrowth (by simp)
  refine ⟨build, built, _, _, hbuild, by rw [hrun, hcount, hop]; rfl, ?_⟩
  have hthree : ([1, 2, 3] : List UInt64).length = (3 : UInt32).toNat := rfl
  rw [← graphValue_built hbuild hthree]
  simp only [pairwiseTree, pairUp]
  decide

end RunD
