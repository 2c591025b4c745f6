/-
What the generic fold-graph validator accepts.

`Accepted graph required` states the accepted graphs without markers and
without loops: the partition slots are distinct and inside the range, every
edge reads slots that a partition or an earlier edge defined and writes one
that nothing defined before, and every node describes the definition of its
slot.  The two directions, `validate_accepted` and `accepted_validate`, make
it the meaning of the validator for any marker array of sufficient length;
`validate_inBounds` adds that the validator never leaves an array, on any
graph whatsoever.
-/
import RunD.FoldGraph

namespace RunD

/-! ### The marker array -/

/-- The marker of a slot when the partitions define `slots` and the edges so far `outs`. -/
def slotMarker (slots outs : List Nat) (s : Nat) : UInt64 :=
  if s ∈ slots then kFoldGraphValidationPartitionMarker
  else if s ∈ outs then kFoldGraphValidationEdgeMarker ||| UInt64.ofNat (outs.idxOf s)
  else 0

/-- The first `required` markers are those of `slots` and `outs`. -/
structure Marked (required : Nat) (slots outs : List Nat) (markers : List UInt64) : Prop where
  length_ge : required ≤ markers.length
  marker_eq : ∀ s, s < required → markers[s]? = some (slotMarker slots outs s)

theorem edgeMarker_toNat {i : Nat} (h : i < 2 ^ 32) :
    (kFoldGraphValidationEdgeMarker ||| UInt64.ofNat i).toNat = 2 ^ 63 + i := by
  have hi : (UInt64.ofNat i).toNat = i := by
    rw [UInt64.toNat_ofNat']
    omega
  have hor := Nat.two_pow_add_eq_or_of_lt (show i < 2 ^ 63 by omega) 1
  rw [UInt64.toNat_or, hi, show kFoldGraphValidationEdgeMarker.toNat = 2 ^ 63 * 1 from rfl, ← hor]
  omega

theorem edgeMarker_ne_zero {i : Nat} (h : i < 2 ^ 32) :
    kFoldGraphValidationEdgeMarker ||| UInt64.ofNat i ≠ 0 := by
  intro h0
  have := congrArg UInt64.toNat h0
  rw [edgeMarker_toNat h] at this
  simp at this

theorem slotMarker_eq_zero {slots outs : List Nat} (h : outs.length ≤ 2 ^ 32) (s : Nat) :
    slotMarker slots outs s = 0 ↔ s ∉ slots ++ outs := by
  unfold slotMarker
  by_cases hs : s ∈ slots
  · simp [hs, kFoldGraphValidationPartitionMarker]
  by_cases ho : s ∈ outs
  · have hidx : outs.idxOf s < 2 ^ 32 := (List.idxOf_lt_length_of_mem ho).trans_le h
    simp only [hs, ho, if_false, if_true, List.mem_append, false_or, not_true, iff_false]
    exact edgeMarker_ne_zero hidx
  · simp [hs, ho]

theorem Marked.eq_zero_iff {required : Nat} {slots outs : List Nat} {markers : List UInt64}
    (hm : Marked required slots outs markers) (hlen : outs.length ≤ 2 ^ 32) {s : Nat} {w : UInt64}
    (hs : s < required) (hw : markers[s]? = some w) : w = 0 ↔ s ∉ slots ++ outs := by
  have := hm.marker_eq s hs
  rw [hw, Option.some.injEq] at this
  rw [this, slotMarker_eq_zero hlen]

/-- A partition's marker is entered. -/
theorem Marked.partition {required : Nat} {slots : List Nat} {markers : List UInt64}
    (hm : Marked required slots [] markers) {s : Nat} (hs : s < required) :
    Marked required (slots ++ [s]) [] (markers.set s kFoldGraphValidationPartitionMarker) := by
  refine ⟨by rw [List.length_set]; exact hm.length_ge, fun t ht => ?_⟩
  have hlen := hm.length_ge
  rw [List.getElem?_set]
  by_cases hst : s = t
  · subst hst
    rw [if_pos rfl, if_pos (by omega)]
    simp [slotMarker]
  · rw [if_neg hst, hm.marker_eq t ht]
    simp [slotMarker, Ne.symm hst]

/-- An edge's marker is entered for a slot not defined before. -/
theorem Marked.edge {required : Nat} {slots outs : List Nat} {markers : List UInt64}
    (hm : Marked required slots outs markers) {s : Nat} (hs : s < required)
    (hfresh : s ∉ slots ++ outs) :
    Marked required slots (outs ++ [s])
      (markers.set s (kFoldGraphValidationEdgeMarker ||| UInt64.ofNat outs.length)) := by
  refine ⟨by rw [List.length_set]; exact hm.length_ge, fun t ht => ?_⟩
  have hlen := hm.length_ge
  rw [List.mem_append, not_or] at hfresh
  rw [List.getElem?_set]
  by_cases hst : s = t
  · subst hst
    rw [if_pos rfl, if_pos (by omega)]
    simp [slotMarker, hfresh.1, List.idxOf_append_of_notMem hfresh.2]
  · rw [if_neg hst, hm.marker_eq t ht]
    by_cases ho : t ∈ outs
    · simp [slotMarker, ho, List.idxOf_append_of_mem ho]
    · simp [slotMarker, ho, Ne.symm hst]

/-! ### Accepted graphs -/

namespace FoldGraphView

variable (graph : FoldGraphView)

/-- The slots of the partitions. -/
def slots : List Nat := graph.partitionFoldSlots.items.map UInt32.toNat

def edges : List FoldGraphEdge := graph.reductionEdges.items

/-- The slots the first `i` edges write. -/
def outputs (i : Nat) : List Nat := (graph.edges.take i).map fun e => e.outputSlot.toNat

/-- The slots defined before edge `i` runs. -/
def defined (i : Nat) : List Nat := graph.slots ++ graph.outputs i

/-- The slot that holds the result after `i` edges. -/
def finalSlotAfter (i : Nat) : Option UInt32 :=
  ((graph.edges.take i).getLast?.map (·.outputSlot)).or graph.partitionFoldSlots.items.getLast?

end FoldGraphView

/-- What the validator demands of edge `i`. -/
structure EdgeAccepted (graph : FoldGraphView) (required : UInt32) (i : Nat)
    (edge : FoldGraphEdge) : Prop where
  operation : edge.operation = graph.operation
  level : ∀ j before, j + 1 = i → graph.edges[j]? = some before → before.level ≤ edge.level
  left_lt : edge.leftSlot < required
  right_lt : edge.rightSlot < required
  output_lt : edge.outputSlot < required
  left_defined : edge.leftSlot.toNat ∈ graph.defined i
  right_defined : edge.rightIsPadding = false → edge.rightSlot.toNat ∈ graph.defined i
  output_fresh : edge.outputSlot.toNat ∉ graph.defined i
  padding : edge.rightIsPadding = true →
    edge.paddingLaw = (describeFoldOperation graph.operation).paddingLaw ∧
      edge.paddingValue = (describeFoldOperation graph.operation).paddingValue
  no_padding : edge.rightIsPadding = false → edge.paddingLaw = .none

/-- What the validator demands of node `i`. -/
structure NodeAccepted (graph : FoldGraphView) (required : UInt32) (i : Nat)
    (node : FoldGraphNode) : Prop where
  index : node.topologicalIndex = UInt32.ofNat i
  slot_lt : node.slot < required
  operation : node.operation = graph.operation
  valueDomain : node.valueDomain = (describeFoldOperation graph.operation).valueDomain
  overflowLaw : node.overflowLaw = (describeFoldOperation graph.operation).overflowLaw
  padding : node.rightIsPadding = true →
    node.paddingLaw = (describeFoldOperation graph.operation).paddingLaw ∧
      node.rightSlot < required
  kind : match node.kind with
    | .workerLocalPartial | .globalOrderedSlot =>
        node.slot.toNat ∈ graph.slots ∧ node.leftSlot = node.slot ∧ node.rightSlot = node.slot ∧
          node.paddingLaw = .none ∧ node.rightIsPadding = false
    | .reduction =>
        node.slot.toNat ∉ graph.slots ∧
          ∃ (j : Nat) (edge : FoldGraphEdge), graph.edges[j]? = some edge ∧ reductionNodeMatchesEdge node edge = true
    | .unlisted _ => False

/-- The graphs the validator accepts, with the number of scratch slots they need. -/
structure Accepted (graph : FoldGraphView) (required : UInt32) : Prop where
  shape : validateFoldGraphShape graph = Except.ok ()
  count : foldGraphScratchSlotCount graph = Except.ok required
  required_ne : required ≠ 0
  slots_lt : ∀ s ∈ graph.slots, s < required.toNat
  slots_nodup : graph.slots.Nodup
  edge : ∀ i e, graph.edges[i]? = some e → EdgeAccepted graph required i e
  final : graph.finalSlotAfter graph.edges.length = some graph.finalSlot
  node : ∀ i n, graph.nodes.items[i]? = some n → NodeAccepted graph required i n

/-! ### The shape check -/

/-- What the shape check leaves for the checks after it. -/
structure ShapeFacts (graph : FoldGraphView) : Prop where
  supported : isSupportedFoldOperation graph.operation = true
  law : foldOperationAllowsFloatingPoint graph.operation = true →
    strictFloatReductionValid graph.operation graph.strictFloatReduction = true
  partitionCount_ne : graph.partitionCount ≠ 0
  slots_count : graph.partitionFoldSlots.count = graph.partitionCount
  slots_readable : graph.partitionFoldSlots.Readable
  edges_readable : graph.reductionEdges.Readable
  nodes_readable : graph.nodes.Readable

theorem shapeFacts {graph : FoldGraphView} (h : validateFoldGraphShape graph = Except.ok ()) :
    ShapeFacts graph := by
  simp only [validateFoldGraphShape, bind_eq_ok, require_eq_ok, exists_const] at h
  obtain ⟨⟨-, hsup⟩, ⟨⟩, hlaw, -, ⟨hcount, hnull, hslots⟩, hedges, hnodes⟩ := h
  refine ⟨hsup, fun hfloat => ?_, hcount, hslots, fun _ => hnull, ?_, ?_⟩
  · rw [validateFloatingPointLaw, if_pos hfloat] at hlaw
    simp only [bind_eq_ok, require_eq_ok, exists_const] at hlaw
    exact hlaw.2.2
  · intro hne
    simpa [hne] using hedges
  · intro hne
    simpa [hne] using hnodes

section Lengths

variable {graph : FoldGraphView} (hshape : ShapeFacts graph)
include hshape

theorem ShapeFacts.slots_length : graph.slots.length = graph.partitionCount.toNat := by
  rw [FoldGraphView.slots, List.length_map, ArrayView.items_length hshape.slots_readable,
    hshape.slots_count]

theorem ShapeFacts.partitionCount_pos : 1 ≤ graph.partitionCount.toNat := by
  rw [Nat.one_le_iff_ne_zero]
  exact fun h0 => hshape.partitionCount_ne (UInt32.toNat_inj.mp h0)

theorem ShapeFacts.last_toNat :
    (graph.partitionCount - 1).toNat = graph.partitionCount.toNat - 1 := by
  have hpos := hshape.partitionCount_pos
  have hone : (1 : UInt32) ≤ graph.partitionCount := UInt32.le_iff_toNat_le.mpr hpos
  rw [UInt32.toNat_sub_of_le _ _ hone]
  rfl

theorem ShapeFacts.edges_length : graph.edges.length = graph.reductionEdges.count.toNat :=
  ArrayView.items_length hshape.edges_readable

theorem ShapeFacts.edges_length_lt : graph.edges.length < 2 ^ 32 := by
  rw [hshape.edges_length]
  exact graph.reductionEdges.count.toNat_lt

end Lengths

/-! ### The partition slots -/

section Slots

variable {graph : FoldGraphView} {required : UInt32}

/-- The walk over the partitions after `i` of them. -/
structure SlotsWalked (graph : FoldGraphView) (required : UInt32) (i : Nat)
    (markers : List UInt64) : Prop where
  marked : Marked required.toNat (graph.slots.take i) [] markers
  nodup : (graph.slots.take i).Nodup
  lt : ∀ s ∈ graph.slots.take i, s < required.toNat

theorem slots_getElem? {p : Nat} {slot : UInt32}
    (h : graph.partitionFoldSlots.items[p]? = some slot) : graph.slots[p]? = some slot.toNat := by
  rw [FoldGraphView.slots, List.getElem?_map, h]
  rfl

theorem SlotsWalked.cleared (markers : List UInt64) :
    SlotsWalked graph required 0
      (List.replicate required.toNat 0 ++ markers.drop required.toNat) := by
  refine ⟨⟨by simp, fun s hs => ?_⟩, by simp, by simp⟩
  rw [List.getElem?_append_left (by simpa using hs), List.getElem?_replicate_of_lt hs]
  simp [slotMarker]

theorem SlotsWalked.next {p : Nat} {slot : UInt32} {markers : List UInt64}
    (hw : SlotsWalked graph required p markers)
    (hslot : graph.partitionFoldSlots.items[p]? = some slot) (hlt : slot < required)
    (hfresh : slot.toNat ∉ graph.slots.take p) :
    SlotsWalked graph required (p + 1)
      (markers.set slot.toNat kFoldGraphValidationPartitionMarker) := by
  have htake : graph.slots.take (p + 1) = graph.slots.take p ++ [slot.toNat] := by
    rw [List.take_add_one, slots_getElem? hslot]
    rfl
  rw [UInt32.lt_iff_toNat_lt] at hlt
  refine ⟨?_, ?_, ?_⟩
  · rw [htake]
    exact hw.marked.partition hlt
  · rw [htake]
    exact List.nodup_append.mpr ⟨hw.nodup, by simp, by simpa using fun a ha => ne_of_mem_of_not_mem ha hfresh⟩
  · intro s hs
    rw [htake, List.mem_append, List.mem_singleton] at hs
    rcases hs with hs | rfl
    · exact hw.lt s hs
    · exact hlt

variable (hshape : ShapeFacts graph)
include hshape

theorem safely_validatePartitionSlot {p : Nat} {markers : List UInt64}
    (hp : p < graph.partitionCount.toNat) (hw : SlotsWalked graph required p markers) :
    Safely (validatePartitionSlot graph required p markers)
      (SlotsWalked graph required (p + 1)) := by
  have hcount : p < graph.partitionFoldSlots.count.toNat := by rwa [hshape.slots_count]
  have hlen := ArrayView.items_length hshape.slots_readable
  rw [validatePartitionSlot, ArrayView.get_eq_fetch hshape.slots_readable hcount]
  refine Safely.bind (safely_fetch (by omega)) fun slot hslot => ?_
  refine Safely.bind (safely_require _ _) fun _ hlt => ?_
  have hlt' : slot.toNat < required.toNat := UInt32.lt_iff_toNat_lt.mp hlt
  have hin : slot.toNat < markers.length := lt_of_lt_of_le hlt' hw.marked.length_ge
  refine Safely.bind (safely_fetch hin) fun marker hmarker => ?_
  refine Safely.bind (safely_require _ _) fun _ hzero => ?_
  refine (safely_assign hin).mono fun markers' hm' => ?_
  have hfresh := (hw.marked.eq_zero_iff (by simp) hlt' hmarker).mp hzero
  rw [List.append_nil] at hfresh
  exact hm' ▸ hw.next hslot hlt hfresh

theorem validatePartitionSlot_returns {p : Nat} {markers : List UInt64}
    (hlt : ∀ s ∈ graph.slots, s < required.toNat) (hnodup : graph.slots.Nodup)
    (hp : p < graph.partitionCount.toNat) (hw : SlotsWalked graph required p markers) :
    ∃ markers', validatePartitionSlot graph required p markers = Except.ok markers' ∧
      SlotsWalked graph required (p + 1) markers' ∧ markers'.length = markers.length := by
  have hcount : p < graph.partitionFoldSlots.count.toNat := by rwa [hshape.slots_count]
  have hlen := ArrayView.items_length hshape.slots_readable
  obtain ⟨slot, hslot⟩ : ∃ slot, graph.partitionFoldSlots.items[p]? = some slot :=
    ⟨_, List.getElem?_eq_getElem (by omega)⟩
  have hslot' := slots_getElem? hslot
  have hr : slot.toNat < required.toNat := hlt _ (List.mem_of_getElem? hslot')
  have hfresh : slot.toNat ∉ graph.slots.take p := by
    intro hmem
    obtain ⟨q, hq, hqe⟩ := List.mem_take_iff_getElem.mp hmem
    have hlt' : q < graph.slots.length := by omega
    have : q = p := (List.getElem?_inj hlt' hnodup).mp
      (by rw [List.getElem?_eq_getElem hlt', hslot', hqe])
    omega
  have hin : slot.toNat < markers.length := lt_of_lt_of_le hr hw.marked.length_ge
  obtain ⟨marker, hmarker⟩ : ∃ marker, markers[slot.toNat]? = some marker :=
    ⟨_, List.getElem?_eq_getElem hin⟩
  have hzero : marker = 0 :=
    (hw.marked.eq_zero_iff (by simp) hr hmarker).mpr (by simpa using hfresh)
  refine ⟨_, ?_, hw.next hslot (UInt32.lt_iff_toNat_lt.mpr hr) hfresh, List.length_set⟩
  rw [validatePartitionSlot, ArrayView.get_eq_fetch hshape.slots_readable hcount]
  simp only [bind_eq_ok, require_eq_ok, fetch_eq_ok, assign_eq_ok, exists_const]
  exact ⟨slot, hslot, UInt32.lt_iff_toNat_lt.mpr hr, marker, hmarker, hzero, hin, rfl⟩

end Slots

/-! ### The edges -/

section Edges

variable {graph : FoldGraphView} {required : UInt32}

theorem outputs_succ {i : Nat} {edge : FoldGraphEdge} (h : graph.edges[i]? = some edge) :
    graph.outputs (i + 1) = graph.outputs i ++ [edge.outputSlot.toNat] := by
  rw [FoldGraphView.outputs, List.take_add_one, h]
  simp [FoldGraphView.outputs]

theorem outputs_length {i : Nat} (h : i ≤ graph.edges.length) : (graph.outputs i).length = i := by
  simp [FoldGraphView.outputs, h]

theorem finalSlotAfter_succ {i : Nat} {edge : FoldGraphEdge} (h : graph.edges[i]? = some edge) :
    graph.finalSlotAfter (i + 1) = some edge.outputSlot := by
  rw [FoldGraphView.finalSlotAfter, List.take_add_one, h]
  simp

/-- The walk over the edges after `i` of them. -/
structure EdgesWalked (graph : FoldGraphView) (required : UInt32) (i : Nat)
    (walk : EdgeWalk) : Prop where
  marked : Marked required.toNat graph.slots (graph.outputs i) walk.markers
  accepted : ∀ j e, j < i → graph.edges[j]? = some e → EdgeAccepted graph required j e
  level : ∀ j before, j + 1 = i → graph.edges[j]? = some before → walk.lastLevel = before.level
  final : graph.finalSlotAfter i = some walk.finalSlot

/-- What the walk carries on after an accepted edge. -/
def EdgeWalk.after (walk : EdgeWalk) (i : Nat) (edge : FoldGraphEdge) : EdgeWalk :=
  { lastLevel := edge.level
    finalSlot := edge.outputSlot
    markers := walk.markers.set edge.outputSlot.toNat
      (kFoldGraphValidationEdgeMarker ||| UInt64.ofNat i) }

theorem EdgesWalked.next {i : Nat} {walk : EdgeWalk} {edge : FoldGraphEdge}
    (hw : EdgesWalked graph required i walk) (hedge : graph.edges[i]? = some edge)
    (hacc : EdgeAccepted graph required i edge) :
    EdgesWalked graph required (i + 1) (walk.after i edge) := by
  have hi : i ≤ graph.edges.length := (List.getElem?_eq_some_iff.mp hedge).1.le
  refine ⟨?_, ?_, ?_, finalSlotAfter_succ hedge⟩
  · rw [outputs_succ hedge]
    have := hw.marked.edge (UInt32.lt_iff_toNat_lt.mp hacc.output_lt) hacc.output_fresh
    rwa [outputs_length hi] at this
  · intro j e hj he
    rcases Nat.lt_succ_iff_lt_or_eq.mp hj with hj | rfl
    · exact hw.accepted j e hj he
    · rw [hedge, Option.some.injEq] at he
      exact he ▸ hacc
  · intro j before hj hbefore
    obtain rfl : j = i := by omega
    rw [hedge, Option.some.injEq] at hbefore
    rw [← hbefore]
    rfl

theorem EdgesWalked.level_iff {i : Nat} {walk : EdgeWalk} {edge : FoldGraphEdge}
    (hw : EdgesWalked graph required i walk) (hedge : graph.edges[i]? = some edge) :
    (¬ (i ≠ 0 ∧ edge.level < walk.lastLevel)) ↔
      ∀ j before, j + 1 = i → graph.edges[j]? = some before → before.level ≤ edge.level := by
  constructor
  · intro h j before hj hbefore
    rw [← hw.level j before hj hbefore]
    by_contra hlt
    exact h ⟨by omega, UInt32.not_le.mp hlt⟩
  · rintro h ⟨hi, hlt⟩
    obtain ⟨j, rfl⟩ : ∃ j, i = j + 1 := ⟨i - 1, by omega⟩
    obtain ⟨before, hbefore⟩ : ∃ before, graph.edges[j]? = some before := by
      have := (List.getElem?_eq_some_iff.mp hedge).1
      exact ⟨_, List.getElem?_eq_getElem (by omega)⟩
    have := h j before rfl hbefore
    rw [← hw.level j before rfl hbefore] at this
    exact absurd hlt (UInt32.not_lt.mpr this)

variable (hshape : ShapeFacts graph)
include hshape

theorem ShapeFacts.outputs_le (i : Nat) : (graph.outputs i).length ≤ 2 ^ 32 := by
  have := hshape.edges_length_lt
  simp only [FoldGraphView.outputs, List.length_map, List.length_take]
  omega

theorem ShapeFacts.edge_get {i : Nat} (hi : i < graph.reductionEdges.count.toNat) :
    (graph.reductionEdges.get i : Validation FoldGraphEdge) = fetch graph.edges i :=
  ArrayView.get_eq_fetch hshape.edges_readable hi

theorem safely_validateEdge {i : Nat} {walk : EdgeWalk}
    (hi : i < graph.reductionEdges.count.toNat) (hw : EdgesWalked graph required i walk) :
    Safely (validateEdge graph (describeFoldOperation graph.operation) required i walk)
      (EdgesWalked graph required (i + 1)) := by
  have hlen := hshape.edges_length
  have houts := hshape.outputs_le i
  rw [validateEdge, hshape.edge_get hi]
  refine Safely.bind (safely_fetch (by omega)) fun edge hedge => ?_
  refine Safely.bind (safely_require _ _) fun _ hop => ?_
  refine Safely.bind (safely_require _ _) fun _ hlevel => ?_
  refine Safely.bind (safely_require _ _) fun _ hrange => ?_
  obtain ⟨hl, hr, ho⟩ := hrange
  have hl' := UInt32.lt_iff_toNat_lt.mp hl
  have hr' := UInt32.lt_iff_toNat_lt.mp hr
  have ho' := UInt32.lt_iff_toNat_lt.mp ho
  have hin : ∀ {s : Nat}, s < required.toNat → s < walk.markers.length :=
    fun hs => lt_of_lt_of_le hs hw.marked.length_ge
  refine Safely.bind (safely_fetch (hin hl')) fun left hleft => ?_
  refine Safely.bind (safely_require _ _) fun _ hleft0 => ?_
  have hright : Safely (validateRightInput edge required walk.markers)
      fun _ => edge.rightIsPadding = false → edge.rightSlot.toNat ∈ graph.defined i := by
    unfold validateRightInput
    split
    · next hpad => exact safely_pure (by simp [hpad])
    · refine Safely.bind (safely_fetch (hin hr')) fun right hright => ?_
      refine (safely_require _ _).mono fun _ hne _ => ?_
      by_contra hmem
      exact hne ((hw.marked.eq_zero_iff houts hr' hright).mpr hmem)
  refine Safely.bind hright fun _ hright => ?_
  refine Safely.bind (safely_fetch (hin ho')) fun output houtput => ?_
  refine Safely.bind (safely_require _ _) fun _ hout0 => ?_
  refine Safely.bind (safely_require _ _) fun _ hpad => ?_
  refine Safely.bind (safely_require _ _) fun _ hnopad => ?_
  refine Safely.bind (safely_assign (hin ho')) fun markers' hm' => ?_
  subst hm'
  refine safely_pure (hw.next hedge ?_)
  refine ⟨hop, (hw.level_iff hedge).mp hlevel, hl, hr, ho, ?_, hright,
    (hw.marked.eq_zero_iff houts ho' houtput).mp hout0, ?_, ?_⟩
  · by_contra hmem
    exact hleft0 ((hw.marked.eq_zero_iff houts hl' hleft).mpr hmem)
  · intro h
    simpa [h] using hpad
  · intro h
    simpa [h] using hnopad

theorem validateEdge_returns {i : Nat} {walk : EdgeWalk} {edge : FoldGraphEdge}
    (hedge : graph.edges[i]? = some edge) (hacc : EdgeAccepted graph required i edge)
    (hw : EdgesWalked graph required i walk) :
    validateEdge graph (describeFoldOperation graph.operation) required i walk =
      Except.ok (walk.after i edge) := by
  have houts := hshape.outputs_le i
  have hi : i < graph.reductionEdges.count.toNat := by
    rw [← hshape.edges_length]
    exact (List.getElem?_eq_some_iff.mp hedge).1
  have hget : ∀ {s : UInt32}, s < required → ∃ w, walk.markers[s.toNat]? = some w ∧
      (w = 0 ↔ s.toNat ∉ graph.defined i) := by
    intro s hs
    have hs' := UInt32.lt_iff_toNat_lt.mp hs
    have hin := lt_of_lt_of_le hs' hw.marked.length_ge
    have hw' := List.getElem?_eq_getElem hin
    exact ⟨_, hw', hw.marked.eq_zero_iff houts hs' hw'⟩
  obtain ⟨left, hleft, hleft0⟩ := hget hacc.left_lt
  obtain ⟨right, hright, hright0⟩ := hget hacc.right_lt
  obtain ⟨output, houtput, houtput0⟩ := hget hacc.output_lt
  have hin := lt_of_lt_of_le (UInt32.lt_iff_toNat_lt.mp hacc.output_lt) hw.marked.length_ge
  rw [validateEdge, hshape.edge_get hi]
  simp only [bind_eq_ok, require_eq_ok, fetch_eq_ok, assign_eq_ok, pure_eq_ok, exists_const]
  refine ⟨edge, hedge, hacc.operation, (hw.level_iff hedge).mpr hacc.level,
    ⟨hacc.left_lt, hacc.right_lt, hacc.output_lt⟩, left, hleft,
    mt hleft0.mp (not_not.mpr hacc.left_defined), (), ?_, output, houtput,
    houtput0.mpr hacc.output_fresh, ?_, ?_, _, ⟨hin, rfl⟩, rfl⟩
  · unfold validateRightInput
    split
    · rfl
    · next hpad =>
      simp only [bind_eq_ok, require_eq_ok, fetch_eq_ok]
      exact ⟨right, hright,
        mt hright0.mp (not_not.mpr (hacc.right_defined (by simpa using hpad)))⟩
  · rintro ⟨hpad, hbad⟩
    have := hacc.padding hpad
    exact hbad.elim (absurd this.1) (absurd this.2)
  · rintro ⟨hpad, hbad⟩
    exact hbad (hacc.no_padding hpad)

end Edges

/-! ### Reading markers back -/

theorem isEdgeMarker_edge {i : Nat} (h : i < 2 ^ 32) :
    isEdgeMarker (kFoldGraphValidationEdgeMarker ||| UInt64.ofNat i) = true := by
  have hi : (UInt64.ofNat i).toNat = i := by
    rw [UInt64.toNat_ofNat']
    omega
  have hlow : i &&& 3 * 2 ^ 62 = 0 := by
    refine Nat.eq_of_testBit_eq fun j => ?_
    rw [Nat.testBit_and, Nat.testBit_mul_two_pow, Nat.zero_testBit]
    by_cases hj : j < 62
    · simp [Nat.not_le.mpr hj]
    · have : i.testBit j = false :=
        Nat.testBit_lt_two_pow (lt_of_lt_of_le h (Nat.pow_le_pow_right (by omega) (by omega)))
      simp [this]
  rw [isEdgeMarker, beq_iff_eq, ← UInt64.toNat_inj, UInt64.toNat_and, UInt64.toNat_or, hi,
    show kFoldGraphValidationMarkerTagMask.toNat = 3 * 2 ^ 62 from rfl,
    Nat.and_or_distrib_right, hlow]
  rfl

theorem edgeMarker_payload {i : Nat} (h : i < 2 ^ 32) :
    ((kFoldGraphValidationEdgeMarker ||| UInt64.ofNat i) &&&
      kFoldGraphValidationMarkerPayloadMask).toNat = i := by
  rw [UInt64.toNat_and, edgeMarker_toNat h,
    show kFoldGraphValidationMarkerPayloadMask.toNat = 2 ^ 62 - 1 from rfl,
    Nat.and_two_pow_sub_one_eq_mod]
  omega

theorem isPartitionMarker_slotMarker {slots outs : List Nat} (h : outs.length ≤ 2 ^ 32)
    (s : Nat) : isPartitionMarker (slotMarker slots outs s) = true ↔ s ∈ slots := by
  unfold slotMarker isPartitionMarker
  by_cases hs : s ∈ slots
  · simp [hs]
  by_cases ho : s ∈ outs
  · have hidx : outs.idxOf s < 2 ^ 32 := (List.idxOf_lt_length_of_mem ho).trans_le h
    simp only [hs, ho, if_false, if_true, beq_iff_eq, iff_false]
    intro heq
    have := congrArg UInt64.toNat heq
    rw [edgeMarker_toNat hidx,
      show kFoldGraphValidationPartitionMarker.toNat = 2 ^ 62 from rfl] at this
    omega
  · simp [hs, ho, kFoldGraphValidationPartitionMarker]

theorem isEdgeMarker_slotMarker {slots outs : List Nat} (h : outs.length ≤ 2 ^ 32) (s : Nat) :
    isEdgeMarker (slotMarker slots outs s) = true ↔ s ∉ slots ∧ s ∈ outs := by
  unfold slotMarker
  by_cases hs : s ∈ slots
  · simp only [hs, if_true, not_true, false_and, iff_false]
    decide
  by_cases ho : s ∈ outs
  · have hidx : outs.idxOf s < 2 ^ 32 := (List.idxOf_lt_length_of_mem ho).trans_le h
    simp only [hs, ho, if_false, if_true, not_false_iff, and_self, iff_true]
    exact isEdgeMarker_edge hidx
  · simp only [hs, ho, if_false, not_false_iff, and_false, iff_false]
    decide

theorem slotMarker_payload {slots outs : List Nat} (h : outs.length ≤ 2 ^ 32) {s : Nat}
    (hs : s ∉ slots) (ho : s ∈ outs) :
    (slotMarker slots outs s &&& kFoldGraphValidationMarkerPayloadMask).toNat = outs.idxOf s := by
  have hidx : outs.idxOf s < 2 ^ 32 := (List.idxOf_lt_length_of_mem ho).trans_le h
  rw [slotMarker, if_neg hs, if_pos ho, edgeMarker_payload hidx]

/-! ### The nodes -/

section Nodes

variable {graph : FoldGraphView} {required : UInt32}

/-- The edges define distinct slots. -/
theorem outputs_nodup (hedges : ∀ i e, graph.edges[i]? = some e → EdgeAccepted graph required i e)
    (n : Nat) : (graph.outputs n).Nodup := by
  induction n with
  | zero => simp [FoldGraphView.outputs]
  | succ n ih =>
      rcases he : graph.edges[n]? with - | e
      · rw [FoldGraphView.outputs, List.take_of_length_le (by
          have := List.getElem?_eq_none_iff.mp he
          omega)]
        rwa [FoldGraphView.outputs, List.take_of_length_le (List.getElem?_eq_none_iff.mp he)] at ih
      · rw [outputs_succ he]
        have hfresh := (hedges n e he).output_fresh
        rw [FoldGraphView.defined, List.mem_append, not_or] at hfresh
        exact List.nodup_append.mpr
          ⟨ih, by simp, by simpa using fun a ha => ne_of_mem_of_not_mem ha hfresh.2⟩

variable (hshape : ShapeFacts graph)
  (hedges : ∀ i e, graph.edges[i]? = some e → EdgeAccepted graph required i e)
include hshape hedges

omit hshape in
theorem reductionNode_iff {node : FoldGraphNode} :
    (node.slot.toNat ∉ graph.slots ∧
      ∃ (j : Nat) (edge : FoldGraphEdge), graph.edges[j]? = some edge ∧
        reductionNodeMatchesEdge node edge = true) ↔
    (node.slot.toNat ∉ graph.slots ∧ node.slot.toNat ∈ graph.outputs graph.edges.length ∧
      ∃ edge, graph.edges[(graph.outputs graph.edges.length).idxOf node.slot.toNat]? = some edge ∧
        reductionNodeMatchesEdge node edge = true) := by
  refine and_congr_right fun _ => ⟨?_, ?_⟩
  · rintro ⟨j, edge, hj, hmatch⟩
    have hslot : node.slot = edge.outputSlot := by
      simp only [reductionNodeMatchesEdge, Bool.and_eq_true, beq_iff_eq] at hmatch
      exact hmatch.1.1.1.1.1
    have hout : (graph.outputs graph.edges.length)[j]? = some node.slot.toNat := by
      rw [FoldGraphView.outputs, List.take_length, List.getElem?_map, hj, hslot]
      rfl
    have hmem := List.mem_of_getElem? hout
    have hlt := (List.getElem?_eq_some_iff.mp hout).1
    have hidx : (graph.outputs graph.edges.length).idxOf node.slot.toNat = j := by
      have hlt' := List.idxOf_lt_length_of_mem hmem
      refine (List.getElem?_inj hlt' (outputs_nodup hedges _)).mp ?_
      rw [List.getElem?_eq_getElem hlt', List.getElem_idxOf, hout]
    exact ⟨hmem, edge, by rw [hidx, hj], hmatch⟩
  · rintro ⟨-, edge, hj, hmatch⟩
    exact ⟨_, edge, hj, hmatch⟩

variable {walk : EdgeWalk}
  (hmarked : Marked required.toNat graph.slots (graph.outputs graph.edges.length) walk.markers)
include hmarked

omit hedges in
theorem safely_validateNode {i : Nat} (hi : i < graph.nodes.count.toNat) :
    Safely (validateNode graph walk.markers (describeFoldOperation graph.operation) required i)
      fun _ => ∀ n, graph.nodes.items[i]? = some n → NodeAccepted graph required i n := by
  have houts := hshape.outputs_le graph.edges.length
  have hlen := ArrayView.items_length hshape.nodes_readable
  rw [validateNode, ArrayView.get_eq_fetch hshape.nodes_readable hi]
  refine Safely.bind (safely_fetch (by omega)) fun node hnode => ?_
  refine Safely.bind (safely_require _ _) fun _ hbase => ?_
  obtain ⟨hidx, hslot, hop, hdom, hover⟩ := hbase
  have hslot' := UInt32.lt_iff_toNat_lt.mp hslot
  refine Safely.bind (safely_require _ _) fun _ hpad => ?_
  refine Safely.bind (safely_fetch (lt_of_lt_of_le hslot' hmarked.length_ge)) fun marker hm => ?_
  rw [hmarked.marker_eq _ hslot', Option.some.injEq] at hm
  -- every kind that passes its check gives the same facts about the node
  have hdone : (match node.kind with
      | .workerLocalPartial | .globalOrderedSlot =>
          node.slot.toNat ∈ graph.slots ∧ node.leftSlot = node.slot ∧
            node.rightSlot = node.slot ∧ node.paddingLaw = .none ∧ node.rightIsPadding = false
      | .reduction =>
          node.slot.toNat ∉ graph.slots ∧ ∃ (j : Nat) (edge : FoldGraphEdge),
            graph.edges[j]? = some edge ∧ reductionNodeMatchesEdge node edge = true
      | .unlisted _ => False) →
      ∀ n, graph.nodes.items[i]? = some n → NodeAccepted graph required i n := by
    intro hkind n hn
    rw [hnode, Option.some.injEq] at hn
    subst hn
    refine ⟨hidx, hslot, hop, hdom, hover, fun h => ?_, hkind⟩
    simpa [h, UInt32.not_le] using hpad
  have hpartition : partitionNodeValid marker node = true →
      node.slot.toNat ∈ graph.slots ∧ node.leftSlot = node.slot ∧
        node.rightSlot = node.slot ∧ node.paddingLaw = .none ∧ node.rightIsPadding = false := by
    intro h
    simp only [partitionNodeValid, Bool.and_eq_true, beq_iff_eq, Bool.not_eq_true', ← hm,
      isPartitionMarker_slotMarker houts] at h
    tauto
  rcases hk : node.kind with - | - | - | raw <;> simp only [hk] at hdone ⊢
  · exact (safely_require _ _).mono fun _ h => hdone (hpartition h)
  · exact (safely_require _ _).mono fun _ h => hdone (hpartition h)
  · refine Safely.bind (safely_require _ _) fun _ hedge => ?_
    rw [← hm, isEdgeMarker_slotMarker houts] at hedge
    obtain ⟨hns, hmem⟩ := hedge
    rw [← hm, slotMarker_payload houts hns hmem]
    refine Safely.bind (safely_require _ _) fun _ hlt => ?_
    rw [hshape.edge_get hlt]
    refine Safely.bind (safely_fetch (by have := hshape.edges_length; omega)) fun edge hedge => ?_
    refine (safely_require _ _).mono fun _ hmatch => hdone ⟨hns, _, edge, hedge, hmatch⟩
  · exact safely_leave _

theorem validateNode_returns {i : Nat} {node : FoldGraphNode}
    (hnode : graph.nodes.items[i]? = some node) (hacc : NodeAccepted graph required i node) :
    validateNode graph walk.markers (describeFoldOperation graph.operation) required i =
      Except.ok () := by
  have houts := hshape.outputs_le graph.edges.length
  have hi : i < graph.nodes.count.toNat := by
    rw [← ArrayView.items_length hshape.nodes_readable]
    exact (List.getElem?_eq_some_iff.mp hnode).1
  have hslot' := UInt32.lt_iff_toNat_lt.mp hacc.slot_lt
  have hkind := hacc.kind
  rw [validateNode, ArrayView.get_eq_fetch hshape.nodes_readable hi]
  simp only [bind_eq_ok, require_eq_ok, fetch_eq_ok, exists_const]
  refine ⟨node, hnode, ⟨hacc.index, hacc.slot_lt, hacc.operation, hacc.valueDomain,
    hacc.overflowLaw⟩, ?_, _, hmarked.marker_eq _ hslot', ?_⟩
  · rintro ⟨hpad, hbad⟩
    obtain ⟨hlaw, hlt⟩ := hacc.padding hpad
    exact hbad.elim (absurd hlaw) fun h => absurd hlt (UInt32.not_lt.mpr h)
  · have hpartition : node.slot.toNat ∈ graph.slots ∧ node.leftSlot = node.slot ∧
        node.rightSlot = node.slot ∧ node.paddingLaw = .none ∧ node.rightIsPadding = false →
        partitionNodeValid (slotMarker graph.slots (graph.outputs graph.edges.length)
          node.slot.toNat) node = true := by
      intro h
      simp only [partitionNodeValid, Bool.and_eq_true, beq_iff_eq, Bool.not_eq_true',
        isPartitionMarker_slotMarker houts]
      tauto
    rcases hk : node.kind with - | - | - | raw <;> simp only [hk] at hkind ⊢
    · exact require_eq_ok.mpr (hpartition hkind)
    · exact require_eq_ok.mpr (hpartition hkind)
    · obtain ⟨hns, hmem, edge, hedge, hmatch⟩ := (reductionNode_iff hedges).mp hkind
      rw [slotMarker_payload houts hns hmem]
      have hlt : (graph.outputs graph.edges.length).idxOf node.slot.toNat <
          graph.reductionEdges.count.toNat := by
        rw [← hshape.edges_length]
        exact (List.getElem?_eq_some_iff.mp hedge).1
      rw [hshape.edge_get hlt]
      simp only [bind_eq_ok, require_eq_ok, fetch_eq_ok, exists_const]
      exact ⟨(isEdgeMarker_slotMarker houts _).mpr ⟨hns, hmem⟩, hlt, edge, hedge, hmatch⟩

end Nodes

/-! ### The whole validation -/

theorem safely_get {α ε : Type} {v : ArrayView α} (h : v.Readable) {i : Nat}
    (hi : i < v.count.toNat) : Safely (v.get i : Checked ε α) fun a => v.items[i]? = some a := by
  rw [ArrayView.get_eq_fetch h hi]
  exact safely_fetch (by rwa [ArrayView.items_length h])

theorem safely_foldGraphScratchSlotCount (graph : FoldGraphView) :
    Safely (foldGraphScratchSlotCount graph) fun _ => True := by
  simp only [foldGraphScratchSlotCount]
  split
  · exact safely_pure trivial
  next hslots =>
  split
  · exact safely_pure trivial
  split
  · exact safely_pure trivial
  next hedges =>
  have hslots' : graph.partitionFoldSlots.Readable := fun hne => by simpa [hne] using hslots
  have hedges' : graph.reductionEdges.Readable := fun hne => by simpa [hne] using hedges
  refine Safely.bind (Q := fun _ => True) ?_ fun _ _ => ?_
  · refine safely_forRange (fun _ _ => True) trivial fun i t hi _ => ?_
    exact Safely.bind (safely_get hslots' hi) fun _ _ => safely_pure trivial
  · refine safely_forRange (fun _ _ => True) trivial fun i t hi _ => ?_
    exact Safely.bind (safely_get hedges' hi) fun _ _ => safely_pure trivial

/-- What the validator returns for an accepted graph. -/
def passResult (graph : FoldGraphView) (required : UInt32) : FoldGraphValidationResult :=
  { ok := true, reason := "pass", scratchSlotCount := required, finalSlot := graph.finalSlot,
    dagValidated := true, slotBoundsValidated := true, paddingLawValidated := true }

theorem safely_shape (graph : FoldGraphView) :
    Safely (validateFoldGraphShape graph) fun _ => True := by
  have hlaw : Safely (validateFloatingPointLaw graph) fun _ => True := by
    unfold validateFloatingPointLaw
    split
    · refine Safely.bind (safely_require _ _) fun _ _ => ?_
      refine Safely.bind (safely_require _ _) fun _ _ => ?_
      exact (safely_require _ _).mono fun _ _ => trivial
    · exact (safely_require _ _).mono fun _ _ => trivial
  refine Safely.bind (safely_require _ _) fun _ _ => Safely.bind hlaw fun _ _ => ?_
  refine Safely.bind (safely_require _ _) fun _ _ => ?_
  refine Safely.bind (safely_require _ _) fun _ _ => ?_
  refine Safely.bind (safely_require _ _) fun _ _ => ?_
  exact (safely_require _ _).mono fun _ _ => trivial

theorem finalSlotAfter_zero {graph : FoldGraphView} (hshape : ShapeFacts graph) {slot : UInt32}
    (h : graph.partitionFoldSlots.items[(graph.partitionCount - 1).toNat]? = some slot) :
    graph.finalSlotAfter 0 = some slot := by
  have hpred : (graph.partitionCount - 1).toNat = graph.partitionFoldSlots.items.length - 1 := by
    rw [hshape.last_toNat, ArrayView.items_length hshape.slots_readable, hshape.slots_count]
  rw [FoldGraphView.finalSlotAfter, List.take_zero, List.getLast?_nil, Option.map_none,
    Option.none_or, List.getLast?_eq_getElem?, ← hpred, h]

/-- **The validator stays inside its arrays on every graph, and what it accepts is accepted in
the sense of `Accepted`.** -/
theorem safely_validate (graph : FoldGraphView) (markers : List UInt64) :
    Safely (validateFoldGraphWithMarkers graph markers) fun r =>
      ∃ required : UInt32, Accepted graph required ∧ required.toNat ≤ markers.length ∧
        r.1 = passResult graph required := by
  refine Safely.bind_run (safely_shape graph) fun _ hshape _ => ?_
  refine Safely.bind_run (safely_foldGraphScratchSlotCount graph) fun required hcount _ => ?_
  have hfacts := shapeFacts hshape
  have hslotsLen := hfacts.slots_length
  -- the partitions
  have hslots : Safely (validateFoldGraphSlots graph markers required) fun m =>
      required ≠ 0 ∧ required.toNat ≤ markers.length ∧
        SlotsWalked graph required graph.partitionCount.toNat m := by
    refine Safely.bind (safely_require _ _) fun _ hne => ?_
    refine Safely.bind (safely_require _ _) fun _ hle => ?_
    refine (safely_forRange (SlotsWalked graph required) (SlotsWalked.cleared markers) ?_).mono
      fun m hm => ⟨hne, hle, hm⟩
    exact fun p m hp hm => safely_validatePartitionSlot hfacts hp hm
  refine Safely.bind hslots fun markers₁ ⟨hne, hle, hwalked⟩ => ?_
  obtain ⟨hmarked, hnodup, hlt⟩ := hwalked
  rw [← hslotsLen, List.take_length] at hmarked hnodup hlt
  -- the edges
  have hedges : Safely (validateFoldGraphEdges graph markers₁
      (describeFoldOperation graph.operation) required)
      (EdgesWalked graph required graph.edges.length) := by
    have hlast : (graph.partitionCount - 1).toNat < graph.partitionFoldSlots.count.toNat := by
      have hpos := hfacts.partitionCount_pos
      rw [hfacts.slots_count, hfacts.last_toNat]
      omega
    refine Safely.bind (safely_get hfacts.slots_readable hlast) fun slot hslot => ?_
    rw [hfacts.edges_length]
    refine safely_forRange (EdgesWalked graph required) ?_ fun i walk hi hw =>
      safely_validateEdge hfacts hi hw
    refine ⟨?_, fun j e hj => absurd hj (by omega), fun j before hj => absurd hj (by omega),
      finalSlotAfter_zero hfacts hslot⟩
    simpa [FoldGraphView.outputs] using hmarked
  refine Safely.bind hedges fun walk hw => ?_
  have hacc : ∀ i e, graph.edges[i]? = some e → EdgeAccepted graph required i e :=
    fun i e he => hw.accepted i e (List.getElem?_eq_some_iff.mp he).1 he
  refine Safely.bind (safely_require _ _) fun _ hfinal => ?_
  -- the nodes
  have hnodes : Safely (validateFoldGraphNodes graph walk.markers
      (describeFoldOperation graph.operation) required) fun _ =>
      ∀ i n, graph.nodes.items[i]? = some n → NodeAccepted graph required i n := by
    refine Safely.bind (safely_require _ _) fun _ _ => ?_
    refine (safely_forRange (fun k _ => ∀ i n, i < k → graph.nodes.items[i]? = some n →
      NodeAccepted graph required i n) (fun i n hi => absurd hi (by omega)) ?_).mono ?_
    · intro i _ hi hdone
      refine (safely_validateNode hfacts hw.marked hi).mono fun _ hnode j n hj hn => ?_
      rcases Nat.lt_succ_iff_lt_or_eq.mp hj with hj | rfl
      · exact hdone j n hj hn
      · exact hnode n hn
    · intro _ hall i n hn
      refine hall i n ?_ hn
      rw [← ArrayView.items_length hfacts.nodes_readable]
      exact (List.getElem?_eq_some_iff.mp hn).1
  refine Safely.bind hnodes fun _ hnodes => safely_pure ?_
  refine ⟨required, ⟨hshape, hcount, hne, hlt, hnodup, hacc, ?_, hnodes⟩, hle, ?_⟩
  · rw [hw.final, hfinal]
  · rw [passResult, hfinal]

/-- **An accepted graph passes over any marker array that is long enough, whatever it
contains.** -/
theorem accepted_validate {graph : FoldGraphView} {required : UInt32}
    (hacc : Accepted graph required) {markers : List UInt64}
    (hle : required.toNat ≤ markers.length) :
    ∃ markers', validateFoldGraphWithMarkers graph markers =
      Except.ok (passResult graph required, markers') := by
  have hfacts := shapeFacts hacc.shape
  have hlen := ArrayView.items_length hfacts.slots_readable
  have hpos := hfacts.partitionCount_pos
  -- the partitions
  obtain ⟨markers₁, hrun₁, hwalked⟩ := forRange_returns (SlotsWalked graph required)
    (n := graph.partitionCount.toNat) (f := validatePartitionSlot graph required)
    (SlotsWalked.cleared markers) (fun p m hp hm => by
      obtain ⟨m', hm', hw', -⟩ :=
        validatePartitionSlot_returns hfacts hacc.slots_lt hacc.slots_nodup hp hm
      exact ⟨m', hm', hw'⟩)
  have hslots : validateFoldGraphSlots graph markers required = Except.ok markers₁ := by
    simp only [validateFoldGraphSlots, bind_eq_ok, require_eq_ok, exists_const]
    exact ⟨hacc.required_ne, hle, hrun₁⟩
  have hmarked := hwalked.marked
  rw [← hfacts.slots_length, List.take_length] at hmarked
  -- the edges
  obtain ⟨slot, hslot⟩ : ∃ slot,
      graph.partitionFoldSlots.items[(graph.partitionCount - 1).toNat]? = some slot := by
    rw [hfacts.slots_count] at hlen
    refine ⟨_, List.getElem?_eq_getElem ?_⟩
    rw [hfacts.last_toNat]
    omega
  obtain ⟨walk, hrun₂, hw⟩ := forRange_returns (EdgesWalked graph required)
    (n := graph.reductionEdges.count.toNat)
    (f := validateEdge graph (describeFoldOperation graph.operation) required)
    (s := { lastLevel := 0, finalSlot := slot, markers := markers₁ })
    ⟨by simpa [FoldGraphView.outputs] using hmarked, fun j e hj => absurd hj (by omega),
      fun j before hj => absurd hj (by omega), finalSlotAfter_zero hfacts hslot⟩
    (fun i walk hi hw => by
      obtain ⟨edge, hedge⟩ : ∃ edge, graph.edges[i]? = some edge :=
        ⟨_, List.getElem?_eq_getElem (by rw [hfacts.edges_length]; exact hi)⟩
      have hedge' := hacc.edge i edge hedge
      exact ⟨_, validateEdge_returns hfacts hedge hedge' hw, hw.next hedge hedge'⟩)
  have hedges : validateFoldGraphEdges graph markers₁ (describeFoldOperation graph.operation)
      required = Except.ok walk := by
    rw [validateFoldGraphEdges, ArrayView.get_eq_fetch hfacts.slots_readable (by
      rw [hfacts.slots_count, hfacts.last_toNat]
      omega)]
    simp only [bind_eq_ok, fetch_eq_ok]
    exact ⟨slot, hslot, hrun₂⟩
  rw [← hfacts.edges_length] at hw
  have hfinal : graph.finalSlot = walk.finalSlot := by
    have := hacc.final
    rw [hw.final, Option.some.injEq] at this
    exact this.symm
  -- the nodes
  have hnodes : validateFoldGraphNodes graph walk.markers
      (describeFoldOperation graph.operation) required = Except.ok () := by
    obtain ⟨⟨⟩, hrun₃, -⟩ := forRange_returns (fun _ (_ : Unit) => True)
      (n := graph.nodes.count.toNat) (s := ())
      (f := fun i _ =>
        validateNode graph walk.markers (describeFoldOperation graph.operation) required i)
      trivial (fun i _ hi _ => by
        obtain ⟨node, hnode⟩ : ∃ node, graph.nodes.items[i]? = some node :=
          ⟨_, List.getElem?_eq_getElem
            (by rw [ArrayView.items_length hfacts.nodes_readable]; exact hi)⟩
        exact ⟨(), validateNode_returns hfacts hacc.edge hw.marked hnode (hacc.node i node hnode),
          trivial⟩)
    simp only [validateFoldGraphNodes, bind_eq_ok, require_eq_ok, exists_const]
    exact ⟨hw.marked.length_ge, hrun₃⟩
  refine ⟨walk.markers, ?_⟩
  simp only [validateFoldGraphWithMarkers, bind_eq_ok, require_eq_ok, pure_eq_ok, exists_const]
  exact ⟨(), hacc.shape, required, hacc.count, markers₁, hslots, walk, hedges, hfinal, (), hnodes,
    by rw [passResult, hfinal]⟩

end RunD
