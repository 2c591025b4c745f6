/-
Executing an accepted fold graph.

The abstract reading of a graph is a memory, a function from slots to words,
updated by the partitions and then by the edges in order (`memoryAfter`), and
a list of slot accesses that depends on the graph alone (`accessLog`).
`foldGraphReduce_accepted` is the refinement: over any scratch array that is
long enough, the execution returns the word the abstract memory holds in the
final slot and makes exactly those accesses.  What the validator established
about the order of definitions then carries over to the execution.
-/
import RunD.FoldAccept
import RunD.FoldReduce

namespace RunD

/-! ### The meaning of a graph -/

/-- Scratch memory as a function of the slot. -/
abbrev Memory := Nat → UInt64

/-- The memory after the first `p` partitions are stored. -/
def partitionMemory (graph : FoldGraphView) (values : List UInt64) : Nat → Memory
  | 0 => fun _ => foldIdentityValue graph.operation
  | p + 1 =>
      match graph.slots[p]?, values[p]? with
      | some slot, some value => Function.update (partitionMemory graph values p) slot value
      | _, _ => partitionMemory graph values p

/-- The word an edge computes. -/
def edgeValue (graph : FoldGraphView) (memory : Memory) (edge : FoldGraphEdge) : UInt64 :=
  combineFoldValues graph.operation (memory edge.leftSlot.toNat)
    (if edge.rightIsPadding then edge.paddingValue else memory edge.rightSlot.toNat)
    graph.strictFloatReduction

/-- The memory after the first `i` edges. -/
def memoryAfter (graph : FoldGraphView) (values : List UInt64) : Nat → Memory
  | 0 => partitionMemory graph values graph.slots.length
  | i + 1 =>
      match graph.edges[i]? with
      | some edge =>
          Function.update (memoryAfter graph values i) edge.outputSlot.toNat
            (edgeValue graph (memoryAfter graph values i) edge)
      | none => memoryAfter graph values i

/-- The word a graph computes from its partition values. -/
def graphValue (graph : FoldGraphView) (values : List UInt64) : UInt64 :=
  memoryAfter graph values graph.edges.length graph.finalSlot.toNat

theorem memoryAfter_succ {graph : FoldGraphView} {values : List UInt64} {i : Nat}
    {edge : FoldGraphEdge} (h : graph.edges[i]? = some edge) :
    memoryAfter graph values (i + 1) =
      Function.update (memoryAfter graph values i) edge.outputSlot.toNat
        (edgeValue graph (memoryAfter graph values i) edge) := by
  rw [memoryAfter, h]

/-! ### The accesses of a graph -/

/-- The accesses of one edge, in order. -/
def edgeAccesses (edge : FoldGraphEdge) : List SlotAccess :=
  (if edge.rightIsPadding then [] else [.use edge.rightSlot.toNat]) ++
    [.use edge.leftSlot.toNat, .define edge.outputSlot.toNat]

/-- The accesses of the partitions and the first `i` edges. -/
def accessLog (graph : FoldGraphView) (i : Nat) : List SlotAccess :=
  graph.slots.map .define ++ (graph.edges.take i).flatMap edgeAccesses

/-- The slots an access list defines, in order. -/
def definedSlots (log : List SlotAccess) : List Nat :=
  log.filterMap fun access =>
    match access with
    | .define slot => some slot
    | .use _ => none

/-- Every use is preceded by a definition of the same slot. -/
def DefinesBeforeUse (log : List SlotAccess) : Prop :=
  ∀ before slot after, log = before ++ .use slot :: after → .define slot ∈ before

theorem accessLog_succ {graph : FoldGraphView} {i : Nat} {edge : FoldGraphEdge}
    (h : graph.edges[i]? = some edge) :
    accessLog graph (i + 1) = accessLog graph i ++ edgeAccesses edge := by
  simp [accessLog, List.take_add_one, h]

theorem mem_definedSlots {log : List SlotAccess} {slot : Nat} :
    slot ∈ definedSlots log ↔ .define slot ∈ log := by
  simp only [definedSlots, List.mem_filterMap]
  constructor
  · rintro ⟨a, ha, hs⟩
    cases a with
    | define s =>
        simp only [Option.some.injEq] at hs
        exact hs ▸ ha
    | use s => simp at hs
  · intro h
    exact ⟨_, h, rfl⟩

theorem definedSlots_append (l₁ l₂ : List SlotAccess) :
    definedSlots (l₁ ++ l₂) = definedSlots l₁ ++ definedSlots l₂ := List.filterMap_append

theorem definedSlots_edgeAccesses (edge : FoldGraphEdge) :
    definedSlots (edgeAccesses edge) = [edge.outputSlot.toNat] := by
  unfold edgeAccesses
  split <;> rfl

theorem definedSlots_accessLog (graph : FoldGraphView) (i : Nat) :
    definedSlots (accessLog graph i) = graph.defined i := by
  rw [accessLog, definedSlots_append, FoldGraphView.defined, FoldGraphView.outputs]
  congr 1
  · simp [definedSlots, List.filterMap_map]
  · induction graph.edges.take i with
    | nil => rfl
    | cons e es ih =>
        rw [List.flatMap_cons, definedSlots_append, definedSlots_edgeAccesses, ih]
        rfl

/-- Appending accesses whose uses are already defined. -/
theorem DefinesBeforeUse.append {l₁ l₂ : List SlotAccess} (h₁ : DefinesBeforeUse l₁)
    (h₂ : ∀ before slot after, l₂ = before ++ .use slot :: after →
      .define slot ∈ l₁ ∨ .define slot ∈ before) :
    DefinesBeforeUse (l₁ ++ l₂) := by
  intro before slot after h
  rcases List.append_eq_append_iff.mp h with ⟨mid, hb, hl⟩ | ⟨mid, hl, ha⟩
  · -- the use lies in the second list
    rw [hb, List.mem_append]
    exact h₂ mid slot after hl
  · rcases mid with - | ⟨a, mid⟩
    · -- the use is the first of the second list
      rw [List.nil_append] at ha
      rw [List.append_nil] at hl
      rcases h₂ [] slot after (by rw [List.nil_append, ha]) with h | h
      · rwa [hl] at h
      · simp at h
    · rw [List.cons_append, List.cons.injEq] at ha
      exact h₁ before slot mid (by rw [hl, ← ha.1])

/-- The accesses of an accepted graph define every slot before they use it. -/
theorem accessLog_definesBeforeUse {graph : FoldGraphView} {required : UInt32}
    (hedges : ∀ i e, graph.edges[i]? = some e → EdgeAccepted graph required i e) (i : Nat) :
    DefinesBeforeUse (accessLog graph i) := by
  induction i with
  | zero =>
      intro before slot after h
      have hmem : SlotAccess.use slot ∈ accessLog graph 0 := by simp [h]
      simp [accessLog] at hmem
  | succ i ih =>
      rcases he : graph.edges[i]? with - | e
      · have hle : graph.edges.length ≤ i := List.getElem?_eq_none_iff.mp he
        rwa [accessLog, List.take_of_length_le (by omega), ← List.take_of_length_le hle]
      · rw [accessLog_succ he]
        have hacc := hedges i e he
        have hdef : ∀ {s : Nat}, s ∈ graph.defined i → SlotAccess.define s ∈ accessLog graph i := by
          intro s hs
          rwa [← mem_definedSlots, definedSlots_accessLog]
        refine ih.append fun before slot after h => Or.inl ?_
        have hmem : SlotAccess.use slot ∈ edgeAccesses e := by simp [h]
        unfold edgeAccesses at hmem
        by_cases hpad : e.rightIsPadding = true
        · simp [hpad] at hmem
          exact hmem ▸ hdef hacc.left_defined
        · simp [hpad] at hmem
          rcases hmem with rfl | rfl
          · exact hdef (hacc.right_defined (by simpa using hpad))
          · exact hdef hacc.left_defined

theorem finalSlotAfter_mem {graph : FoldGraphView} {i : Nat} {slot : UInt32}
    (h : graph.finalSlotAfter i = some slot) : slot.toNat ∈ graph.defined i := by
  rw [FoldGraphView.defined, List.mem_append]
  rcases he : (graph.edges.take i).getLast? with - | e
  · rw [FoldGraphView.finalSlotAfter, he, Option.map_none, Option.none_or] at h
    exact Or.inl (List.mem_map.mpr ⟨slot, List.mem_of_getLast? h, rfl⟩)
  · rw [FoldGraphView.finalSlotAfter, he, Option.map_some, Option.some_or,
      Option.some.injEq] at h
    exact Or.inr (List.mem_map.mpr ⟨e, List.mem_of_getLast? he, by rw [h]⟩)

theorem Accepted.defined_lt {graph : FoldGraphView} {required : UInt32}
    (hacc : Accepted graph required) {i s : Nat} (h : s ∈ graph.defined i) :
    s < required.toNat := by
  rw [FoldGraphView.defined, List.mem_append] at h
  rcases h with h | h
  · exact hacc.slots_lt s h
  · obtain ⟨e, he, rfl⟩ := List.mem_map.mp h
    obtain ⟨j, hj⟩ := List.mem_iff_getElem?.mp (List.mem_of_mem_take he)
    exact UInt32.lt_iff_toNat_lt.mp (hacc.edge j e hj).output_lt

/-! ### The execution refines the meaning -/

/-- The scratch array holds `memory` and has been accessed as `log` says. -/
structure Represents (length : Nat) (memory : Memory) (log : List SlotAccess)
    (scratch : Scratch) : Prop where
  length_eq : scratch.cells.length = length
  cell_eq : ∀ s, s < length → scratch.cells[s]? = some (memory s)
  log_eq : scratch.log = log

theorem Represents.load {ε : Type} {length : Nat} {memory : Memory} {log : List SlotAccess}
    {scratch : Scratch} (h : Represents length memory log scratch) {s : Nat} (hs : s < length) :
    ∃ scratch', (scratch.load s : Checked ε _) = Except.ok (memory s, scratch') ∧
      Represents length memory (log ++ [.use s]) scratch' := by
  refine ⟨{ scratch with log := scratch.log ++ [.use s] }, ?_, h.length_eq, h.cell_eq, ?_⟩
  · rw [Scratch.load, fetch_of_lt (h.cell_eq s hs)]
    rfl
  · rw [h.log_eq]

theorem Represents.store {ε : Type} {length : Nat} {memory : Memory} {log : List SlotAccess}
    {scratch : Scratch} (h : Represents length memory log scratch) {s : Nat} (hs : s < length)
    (value : UInt64) :
    ∃ scratch', (scratch.store s value : Checked ε _) = Except.ok scratch' ∧
      Represents length (Function.update memory s value) (log ++ [.define s]) scratch' := by
  have hlen := h.length_eq
  refine ⟨⟨scratch.cells.set s value, scratch.log ++ [.define s]⟩, ?_, ?_, fun t ht => ?_, ?_⟩
  · rw [Scratch.store, assign_of_lt (by omega)]
    rfl
  · rw [List.length_set, hlen]
  · rw [List.getElem?_set]
    by_cases hst : s = t
    · subst hst
      rw [if_pos rfl, if_pos (by omega), Function.update_self]
    · rw [if_neg hst, h.cell_eq t ht, Function.update_of_ne (Ne.symm hst)]
  · rw [h.log_eq]

section Run

variable {graph : FoldGraphView} {required : UInt32} (hacc : Accepted graph required)
  {values : List UInt64} (hvalues : values.length = graph.partitionCount.toNat)
  {length : Nat} (hlength : required.toNat ≤ length)
include hacc hlength

include hvalues in
theorem storePartition_refines {p : Nat} {scratch : Scratch}
    (hp : p < graph.partitionCount.toNat)
    (hs : Represents length (partitionMemory graph values p)
      ((graph.slots.take p).map .define) scratch) :
    ∃ scratch', storePartition graph values required p scratch = Except.ok scratch' ∧
      Represents length (partitionMemory graph values (p + 1))
        ((graph.slots.take (p + 1)).map .define) scratch' := by
  have hfacts := shapeFacts hacc.shape
  have hcount : p < graph.partitionFoldSlots.count.toNat := by rwa [hfacts.slots_count]
  have hlen := ArrayView.items_length hfacts.slots_readable
  obtain ⟨slot, hslot⟩ : ∃ slot, graph.partitionFoldSlots.items[p]? = some slot :=
    ⟨_, List.getElem?_eq_getElem (by omega)⟩
  obtain ⟨value, hvalue⟩ : ∃ value, values[p]? = some value :=
    ⟨_, List.getElem?_eq_getElem (by omega)⟩
  have hslot' := slots_getElem? hslot
  have hlt : slot.toNat < required.toNat := hacc.slots_lt _ (List.mem_of_getElem? hslot')
  obtain ⟨scratch', hstore, hrep⟩ := hs.store (ε := FoldResult) (s := slot.toNat) (by omega) value
  refine ⟨scratch', ?_, ?_⟩
  · rw [storePartition, ArrayView.get_eq_fetch hfacts.slots_readable hcount]
    simp only [bind_eq_ok, require_eq_ok, fetch_eq_ok, exists_const]
    exact ⟨slot, hslot, UInt32.lt_iff_toNat_lt.mpr hlt, value, hvalue, hstore⟩
  · rw [partitionMemory, hslot', hvalue, List.take_add_one, hslot']
    simpa using hrep

theorem runEdge_refines {i : Nat} {edge : FoldGraphEdge} {state : UInt32 × Scratch}
    (hedge : graph.edges[i]? = some edge)
    (hs : Represents length (memoryAfter graph values i) (accessLog graph i) state.2) :
    ∃ scratch', runEdge graph i state = Except.ok (edge.outputSlot, scratch') ∧
      Represents length (memoryAfter graph values (i + 1)) (accessLog graph (i + 1)) scratch' := by
  have hfacts := shapeFacts hacc.shape
  have he := hacc.edge i edge hedge
  have hleft := UInt32.lt_iff_toNat_lt.mp he.left_lt
  have hright := UInt32.lt_iff_toNat_lt.mp he.right_lt
  have hout := UInt32.lt_iff_toNat_lt.mp he.output_lt
  have hi : i < graph.reductionEdges.count.toNat := by
    rw [← hfacts.edges_length]
    exact (List.getElem?_eq_some_iff.mp hedge).1
  -- the right operand: the padding word, or a load
  obtain ⟨scratch₁, hload₁, hrep₁⟩ : ∃ scratch₁,
      loadRight edge state.2 = Except.ok (if edge.rightIsPadding then edge.paddingValue
        else memoryAfter graph values i edge.rightSlot.toNat, scratch₁) ∧
      Represents length (memoryAfter graph values i)
        (accessLog graph i ++ if edge.rightIsPadding then [] else [.use edge.rightSlot.toNat])
        scratch₁ := by
    by_cases hpad : edge.rightIsPadding = true
    · exact ⟨state.2, by simp [loadRight, hpad, pure, Except.pure], by simpa [hpad] using hs⟩
    · obtain ⟨scratch₁, hload, hrep⟩ :=
        hs.load (ε := FoldResult) (s := edge.rightSlot.toNat) (by omega)
      exact ⟨scratch₁, by simpa [loadRight, hpad] using hload, by simpa [hpad] using hrep⟩
  obtain ⟨scratch₂, hload₂, hrep₂⟩ :=
    hrep₁.load (ε := FoldResult) (s := edge.leftSlot.toNat) (by omega)
  obtain ⟨scratch₃, hstore, hrep₃⟩ := hrep₂.store (ε := FoldResult) (s := edge.outputSlot.toNat)
    (by omega) (edgeValue graph (memoryAfter graph values i) edge)
  refine ⟨scratch₃, ?_, ?_⟩
  · rw [runEdge, ArrayView.get_eq_fetch hfacts.edges_readable hi]
    simp only [bind_eq_ok, fetch_eq_ok, pure_eq_ok]
    exact ⟨edge, hedge, _, hload₁, _, hload₂, scratch₃, hstore, rfl⟩
  · rw [memoryAfter_succ hedge, accessLog_succ hedge, edgeAccesses]
    simpa using hrep₃

include hvalues in
/-- **The execution of an accepted graph refines its meaning**: over every scratch array that is
long enough it returns the graph's value and makes the graph's accesses. -/
theorem foldGraphReduce_accepted {scratch : List UInt64} (hscratch : scratch.length = length) :
    ∃ cells, foldGraphReduce graph values scratch = Except.ok
      ({ ok := true, reason := "pass", value := graphValue graph values,
         slotCount := graph.partitionCount, operation := graph.operation },
       { cells := cells,
         log := accessLog graph graph.edges.length ++ [.use graph.finalSlot.toNat] }) := by
  have hfacts := shapeFacts hacc.shape
  subst hscratch
  obtain ⟨markers, hvalid⟩ := accepted_validate hacc hlength
  -- the identity fill and the partitions
  obtain ⟨scratch₁, hrun₁, hrep₁⟩ := forRange_returns
    (fun p s => Represents scratch.length (partitionMemory graph values p)
      ((graph.slots.take p).map .define) s)
    (n := graph.partitionCount.toNat) (f := storePartition graph values required)
    (s := { cells := List.replicate scratch.length (foldIdentityValue graph.operation) })
    ⟨by simp, fun s hs => by simp [partitionMemory, hs], by simp⟩
    (fun p s hp hs => storePartition_refines hacc hvalues hlength hp hs)
  rw [← hfacts.slots_length, List.take_length] at hrep₁
  -- the edges
  obtain ⟨state, hrun₂, hrep₂, hstate⟩ := forRange_returns
    (fun i (s : UInt32 × Scratch) => Represents scratch.length (memoryAfter graph values i)
        (accessLog graph i) s.2 ∧
      (i = 0 ∧ s.1 = graph.finalSlot ∨ graph.finalSlotAfter i = some s.1))
    (n := graph.reductionEdges.count.toNat) (f := runEdge graph)
    (s := (graph.finalSlot, scratch₁))
    ⟨by simpa [memoryAfter, accessLog] using hrep₁, Or.inl ⟨rfl, rfl⟩⟩
    (fun i s hi hs => by
      obtain ⟨edge, hedge⟩ : ∃ edge, graph.edges[i]? = some edge :=
        ⟨_, List.getElem?_eq_getElem (by rw [hfacts.edges_length]; exact hi)⟩
      obtain ⟨scratch', hrun, hrep⟩ := runEdge_refines hacc hlength hedge hs.1
      exact ⟨(edge.outputSlot, scratch'), hrun, hrep, Or.inr (finalSlotAfter_succ hedge)⟩)
  rw [← hfacts.edges_length] at hrep₂ hstate
  have hslot : state.1 = graph.finalSlot := by
    rcases hstate with ⟨-, h⟩ | h
    · exact h
    · have := hacc.final
      rw [h, Option.some.injEq] at this
      exact this
  have hlt : graph.finalSlot.toNat < scratch.length :=
    lt_of_lt_of_le (hacc.defined_lt (finalSlotAfter_mem hacc.final)) hlength
  obtain ⟨scratch₃, hload, hrep₃⟩ := hrep₂.load (ε := FoldResult) hlt
  refine ⟨scratch₃.cells, ?_⟩
  simp only [foldGraphReduce, bind_eq_ok, require_eq_ok, pure_eq_ok, exists_const]
  refine ⟨hvalues, (passResult graph required, markers), by rw [hvalid]; rfl, ?_⟩
  refine ⟨hlength, scratch₁, hrun₁, state, hrun₂, ?_⟩
  refine ⟨(_, scratch₃), by rw [hslot]; exact hload, ?_⟩
  rw [← hrep₃.log_eq]
  rfl

end Run

/-- The same over owned slots, which are sized for the graph. -/
theorem foldGraphReduceSlots_accepted {graph : FoldGraphView} {required : UInt32}
    (hacc : Accepted graph required) {values : List UInt64}
    (hvalues : values.length = graph.partitionCount.toNat) (scratch : Vec UInt64)
    (allocation : AllocationPolicy)
    (hroom : allocation = .noGrowth → required.toNat ≤ scratch.capacity) :
    ∃ cells, foldGraphReduceSlots graph values scratch allocation = Except.ok
      ({ ok := true, reason := "pass", value := graphValue graph values,
         slotCount := graph.partitionCount, operation := graph.operation },
       { cells := cells,
         log := accessLog graph graph.edges.length ++ [.use graph.finalSlot.toNat] }) := by
  obtain ⟨slots, hensure, hlen⟩ : ∃ slots : Vec UInt64,
      ensureFoldGraphScratch scratch graph allocation = Except.ok (some slots) ∧
        slots.items.length = required.toNat := by
    have hfits : ¬ (allocation = .noGrowth ∧ scratch.capacity < required.toNat) := fun h => by
      have := hroom h.1
      omega
    simp only [ensureFoldGraphScratch, hacc.count, ok_bind, if_neg hfits]
    exact ⟨_, rfl, by rw [Vec.replace_items, List.length_replicate, Vec.resize_length]⟩
  obtain ⟨cells, hrun⟩ := foldGraphReduce_accepted hacc hvalues hlen.ge rfl
  refine ⟨cells, ?_⟩
  simp only [foldGraphReduceSlots, hensure, Checked.mapReject, ok_bind, hrun]

/-! ### Memory safety -/

theorem foldGraphReduce_inBounds (graph : FoldGraphView) (values scratch : List UInt64) :
    foldGraphReduce graph values scratch ≠ Except.error Stop.outOfBounds := by
  have hsafe := safely_validate graph scratch
  by_cases hvalues : values.length = graph.partitionCount.toNat
  · rcases hv : validateFoldGraphWithMarkers graph scratch with (r | -) | r
    · simp [foldGraphReduce, hv, require, hvalues, Checked.mapReject, bind, Except.bind, pure,
        Except.pure]
    · exact absurd hv hsafe.inBounds
    · obtain ⟨required, hacc, hle, -⟩ := hsafe.post hv
      obtain ⟨cells, hrun⟩ := foldGraphReduce_accepted hacc hvalues hle rfl
      rw [hrun]
      simp
  · simp [foldGraphReduce, require, hvalues, leave, bind, Except.bind]

/-- What a successful execution was given, and what it returned. -/
theorem foldGraphReduce_inv {graph : FoldGraphView} {values scratch : List UInt64}
    {result : FoldResult} {left : Scratch}
    (h : foldGraphReduce graph values scratch = Except.ok (result, left)) :
    ∃ required, Accepted graph required ∧ values.length = graph.partitionCount.toNat ∧
      result.value = graphValue graph values := by
  have hrun := h
  simp only [foldGraphReduce, bind_eq_ok, require_eq_ok, Checked.mapReject_eq_ok,
    exists_const] at hrun
  obtain ⟨hvalues, ⟨validation, markers⟩, hvalid, -⟩ := hrun
  obtain ⟨required, hacc, hle, -⟩ := (safely_validate graph scratch).post hvalid
  obtain ⟨cells, hrun⟩ := foldGraphReduce_accepted hacc hvalues hle rfl
  rw [h, Except.ok.injEq, Prod.mk.injEq] at hrun
  exact ⟨required, hacc, hvalues, by rw [hrun.1]⟩

theorem foldGraphReduceSlots_inv {graph : FoldGraphView} {values : List UInt64}
    {scratch : Vec UInt64} {allocation : AllocationPolicy} {result : FoldResult} {left : Scratch}
    (h : foldGraphReduceSlots graph values scratch allocation = Except.ok (result, left)) :
    ∃ slots : Vec UInt64, foldGraphReduce graph values slots.items = Except.ok (result, left) := by
  simp only [foldGraphReduceSlots, bind_eq_ok] at h
  obtain ⟨ensured, -, h⟩ := h
  rcases ensured with - | slots
  · exact absurd h leave_ne_ok
  · exact ⟨slots, h⟩

theorem accessLog_slot_lt {graph : FoldGraphView} {required : UInt32}
    (hacc : Accepted graph required) (i : Nat) {access : SlotAccess}
    (h : access ∈ accessLog graph i) : access.slot < required.toNat := by
  rw [accessLog, List.mem_append] at h
  rcases h with h | h
  · obtain ⟨s, hs, rfl⟩ := List.mem_map.mp h
    exact hacc.slots_lt s hs
  · obtain ⟨e, he, hin⟩ := List.mem_flatMap.mp h
    obtain ⟨j, hj⟩ := List.mem_iff_getElem?.mp (List.mem_of_mem_take he)
    have hedge := hacc.edge j e hj
    have hl := UInt32.lt_iff_toNat_lt.mp hedge.left_lt
    have hr := UInt32.lt_iff_toNat_lt.mp hedge.right_lt
    have ho := UInt32.lt_iff_toNat_lt.mp hedge.output_lt
    unfold edgeAccesses at hin
    split at hin
    · simp only [List.nil_append, List.mem_cons, List.not_mem_nil, or_false] at hin
      rcases hin with rfl | rfl
      · exact hl
      · exact ho
    · simp only [List.cons_append, List.nil_append, List.mem_cons, List.not_mem_nil,
        or_false] at hin
      rcases hin with rfl | rfl | rfl
      · exact hr
      · exact hl
      · exact ho

theorem Accepted.defined_nodup {graph : FoldGraphView} {required : UInt32}
    (hacc : Accepted graph required) (i : Nat) : (graph.defined i).Nodup := by
  refine List.nodup_append.mpr ⟨hacc.slots_nodup, outputs_nodup hacc.edge i, ?_⟩
  rintro s hs _ ht rfl
  obtain ⟨e, he, hslot⟩ := List.mem_map.mp ht
  obtain ⟨j, hj⟩ := List.mem_iff_getElem?.mp (List.mem_of_mem_take he)
  refine (hacc.edge j e hj).output_fresh ?_
  rw [hslot, FoldGraphView.defined]
  exact List.mem_append_left _ hs

/-- What an accepted validation over the validator's own markers says. -/
theorem validateFoldGraph_accepted {graph : FoldGraphView}
    {validation : FoldGraphValidationResult} {markers : List UInt64}
    (h : validateFoldGraph graph = Except.ok (validation, markers)) :
    Accepted graph validation.scratchSlotCount := by
  simp only [validateFoldGraph, bind_eq_ok] at h
  obtain ⟨count, -, hv⟩ := h
  obtain ⟨required, hacc, -, heq⟩ := (safely_validate graph _).post hv
  have : validation.scratchSlotCount = required :=
    congrArg FoldGraphValidationResult.scratchSlotCount heq
  rw [this]
  exact hacc

/-- **Executing a fold graph is memory safe.**  No graph, accepted or not, makes the execution
leave an array.  An accepted graph accesses only slots inside the scratch range, uses a slot only
after a partition or an earlier edge defined it, defines no slot twice, and returns the same
result with the same accesses over every scratch array that is long enough. -/
theorem foldGraphReduce_memorySafe (graph : FoldGraphView) :
    (∀ values scratch, foldGraphReduce graph values scratch ≠ Except.error Stop.outOfBounds) ∧
    ∀ validation markers, validateFoldGraph graph = Except.ok (validation, markers) →
      ∀ values : List UInt64, values.length = graph.partitionCount.toNat →
        ∃ result log,
          (∀ scratch : List UInt64, validation.scratchSlotCount.toNat ≤ scratch.length →
            ∃ cells, foldGraphReduce graph values scratch = Except.ok (result, ⟨cells, log⟩)) ∧
          (∀ access ∈ log, access.slot < validation.scratchSlotCount.toNat) ∧
          DefinesBeforeUse log ∧ (definedSlots log).Nodup := by
  refine ⟨foldGraphReduce_inBounds graph, fun validation markers hv values hvalues => ?_⟩
  have hacc := validateFoldGraph_accepted hv
  refine ⟨_, _, fun scratch hle => foldGraphReduce_accepted hacc hvalues hle rfl, ?_, ?_, ?_⟩
  · intro access h
    rcases List.mem_append.mp h with h | h
    · exact accessLog_slot_lt hacc _ h
    · rw [List.mem_singleton.mp h]
      exact hacc.defined_lt (finalSlotAfter_mem hacc.final)
  · -- the last use is of the final slot, which is defined
    refine (accessLog_definesBeforeUse hacc.edge _).append fun before slot after h => Or.inl ?_
    have hmem : SlotAccess.use slot ∈ [SlotAccess.use graph.finalSlot.toNat] := by
      rw [h]
      simp
    have hslot : slot = graph.finalSlot.toNat := by simpa using hmem
    rw [hslot, ← mem_definedSlots, definedSlots_accessLog]
    exact finalSlotAfter_mem hacc.final
  · rw [definedSlots_append, definedSlots_accessLog,
      show definedSlots [SlotAccess.use graph.finalSlot.toNat] = [] from rfl, List.append_nil]
    exact hacc.defined_nodup _

/-- Two partitions and the edge that combines them. -/
def pairGraph : FoldGraphView :=
  { operation := .xor
    strictFloatReduction := {}
    partitionCount := 2
    scratchSlotCount := 3
    finalSlot := 2
    fixedTopologicalOrder := true
    primitiveStandardized := true
    floatingPointAllowed := false
    strictFloatingPoint := false
    partitionFoldSlots := ArrayView.ofList [0, 1]
    nodes := ArrayView.ofList []
    reductionEdges := ArrayView.ofList
      [{ leftSlot := 0, rightSlot := 1, outputSlot := 2, operation := .xor }] }

theorem foldGraphReduce_memorySafe_pair :
    ∃ result log,
      (∀ scratch : List UInt64, 3 ≤ scratch.length →
        ∃ cells, foldGraphReduce pairGraph [5, 6] scratch = Except.ok (result, ⟨cells, log⟩)) ∧
      (∀ access ∈ log, access.slot < 3) ∧ DefinesBeforeUse log ∧ (definedSlots log).Nodup :=
  (foldGraphReduce_memorySafe pairGraph).2 (passResult pairGraph 3) _ rfl [5, 6] rfl

end RunD
