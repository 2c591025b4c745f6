/-
What a fusion plan may drop.

A fused boundary joins two adjacent maps, and the version its producer writes
is read once, by the consumer (`planFusion_boundary`).  The planner takes two
things from its caller: which nodes write something visible, and which nodes
can take part in a fusion at all.  Where these facts are true to the graph,
dropping the buffer of every fused boundary leaves every output as it was.

An execution gives each buffer a value.  A dispatch computes what it writes
from what it reads, and from what the buffer held before where it does not
replace all of it; a controlled node does not, when its control says so.  The
fused execution hands the value of a fused boundary over without storing it.
-/
import RunD.FusionReaders
import Mathlib.Algebra.Order.Ring.Nat

namespace RunD

/-! ### Fused boundaries -/

/-- What the planner makes sure of before it fuses the boundary behind node `i`. -/
structure FusedBoundary (graph : Graph) (policy : List FusionNodePolicy) (i : Nat) (id : UInt64)
    (left right : GraphNode) : Prop where
  left_eq : graph.nodes[i]? = some left
  right_eq : graph.nodes[i + 1]? = some right
  maps : left.kind = .map ∧ right.kind = .map
  same_count : left.elementCount = right.elementCount
  /-- The producer writes the intermediate buffer and no other. -/
  writes : left.writeIds = [id]
  /-- The consumer reads it once. -/
  reads : right.readIds.count id = 1
  /-- Nothing else reads this version of it. -/
  version : versionReads id (graph.nodes.drop (i + 1)) = 1
  producer : ∃ p, policy[i]? = some p ∧ p.supported = true ∧ p.writesVisible = false
  /-- The consumer reads it element by element. -/
  consumer : ∃ p, policy[i + 1]? = some p ∧ p.supported = true ∧
    directRead p (lastIdxOf id right.readIds) = true

theorem inspectBoundary_ordinal {left right : GraphNode} {id : UInt64}
    (hwrites : left.writeIds = [id]) (hreads : right.readIds.count id = 1) :
    (inspectBoundary left right).consumerReadOrdinal = lastIdxOf id right.readIds := by
  have hmem : right.readIds.contains id = true := by
    rw [List.contains_iff_mem]
    exact List.count_pos_iff.mp (by omega)
  rw [inspectBoundary, hwrites]
  dsimp only
  rw [if_pos hmem]

@[simp] theorem rejectBoundary_fused (reason : String) (decision intermediate : UInt64) :
    (rejectBoundary reason decision intermediate).fused = false := rfl

theorem evaluateBoundary_fused {graph : Graph} {policy : List FusionNodePolicy} {i : Nat}
    {left right : GraphNode} {leftPolicy rightPolicy : FusionNodePolicy}
    (hleft : graph.nodes[i]? = some left) (hright : graph.nodes[i + 1]? = some right)
    (hleftPolicy : policy[i]? = some leftPolicy) (hrightPolicy : policy[i + 1]? = some rightPolicy)
    (h : (evaluateBoundary (buildReaderFacts graph) (inspectBoundary left right) i left right
      leftPolicy rightPolicy).fused = true) :
    FusedBoundary graph policy i (inspectBoundary left right).intermediate left right := by
  unfold evaluateBoundary at h
  split_ifs at h with hcandidate hvisible hdependency hsupported hdirect
  · exact absurd h (by simp)
  · exact absurd h (by simp)
  · exact absurd h (by simp)
  · exact absurd h (by simp)
  · -- every check has passed
    simp only [not_or, not_not, ne_eq, Bool.not_eq_false, Bool.not_eq_true] at *
    obtain ⟨hwrites, hreads, hreaders⟩ := hdependency
    obtain ⟨hmapl, hmapr, hsupl, hsupr, hcount⟩ := hsupported
    obtain ⟨hids, hcount'⟩ := inspectBoundary_candidate hcandidate hwrites hreads
    refine ⟨hleft, hright, ⟨hmapl, hmapr⟩, hcount, hids, hcount', ?_,
      ⟨leftPolicy, hleftPolicy, hsupl, hvisible⟩, ⟨rightPolicy, hrightPolicy, hsupr, ?_⟩⟩
    · rw [← readerCount_eq (by omega), hreaders]
    · rw [← inspectBoundary_ordinal hids hcount']
      exact hdirect

/-! ### The bits of the plan -/

/-- Two bits of a word have no bit in common. -/
theorem bit_and_bit {a b : Nat} (ha : a < 64) (hb : b < 64) (hne : a ≠ b) :
    ((1 : UInt64) <<< UInt64.ofNat a) &&& ((1 : UInt64) <<< UInt64.ofNat b) = 0 := by
  have hbit : ∀ k < 64, ((1 : UInt64) <<< UInt64.ofNat k).toBitVec = BitVec.twoPow 64 k := by
    intro k hk
    have hmod : k % 18446744073709551616 % 64 = k := by omega
    rw [UInt64.toBitVec_shiftLeft, BitVec.twoPow_eq]
    simp [BitVec.shiftLeft_eq', hmod]
  rw [← UInt64.toBitVec_inj, UInt64.toBitVec_and, hbit a ha, hbit b hb]
  refine BitVec.eq_of_getLsbD_eq fun i hi => ?_
  have hdiffer : ¬ (a = i ∧ b = i) := fun h => hne (h.1.trans h.2.symm)
  rw [BitVec.getLsbD_and, BitVec.getLsbD_twoPow, BitVec.getLsbD_twoPow]
  simpa [ha, hb] using hdiffer

/-- Marking a boundary sets its bit and no other. -/
theorem boundaryBit_markBoundary {words : List UInt64} {i k : Nat}
    (h : boundaryBit (markBoundary words k) i = true) : i = k ∨ boundaryBit words i = true := by
  by_cases hik : i = k
  · exact Or.inl hik
  refine Or.inr ?_
  rw [boundaryBit, markBoundary, List.getElem?_modify] at h
  rw [boundaryBit]
  rcases hword : words[i / 64]? with - | word
  · rw [hword] at h
    exact absurd h (by simp)
  · rw [hword] at h
    by_cases hsame : k / 64 = i / 64
    · have hne : k % 64 ≠ i % 64 := by omega
      simp only [hsame, if_true, Option.map_eq_map, Option.map_some, Option.any_some] at h ⊢
      have hsplit : (word ||| 1 <<< UInt64.ofNat (k % 64)) &&& (1 <<< UInt64.ofNat (i % 64)) =
          word &&& (1 <<< UInt64.ofNat (i % 64)) := by
        have hdistrib : ∀ x y z : UInt64, (x ||| y) &&& z = (x &&& z) ||| (y &&& z) :=
          fun x y z => UInt64.toBitVec_inj.mp BitVec.and_or_distrib_right
        rw [hdistrib, bit_and_bit (Nat.mod_lt _ (by decide)) (Nat.mod_lt _ (by decide)) hne,
          UInt64.or_zero]
      rwa [hsplit] at h
    · simpa [hsame] using h

theorem settleBoundary_fused {region : RegionCost} {rightPolicy : FusionNodePolicy}
    {boundary : BoundaryPlan} (h : (settleBoundary region rightPolicy boundary).1.fused = true) :
    boundary.fused = true := by
  unfold settleBoundary at h
  split at h
  · next hfused => exact hfused
  · exact h

/-- **Every fused boundary of a plan passed the checks of the planner.** -/
theorem planFusion_boundary {graph : Graph} {policy : List FusionNodePolicy} {plan : FusionPlan}
    (hplan : planFusion graph policy = Except.ok plan) {i : Nat}
    (hi : plan.boundaryFused i = true) :
    ∃ id left right, FusedBoundary graph policy i id left right := by
  simp only [planFusion, planGraph, bind_eq_ok, pure_eq_ok] at hplan
  obtain ⟨input, -, _, -, firstPolicy, -, state, hloop, rfl⟩ := hplan
  -- the bits set so far belong to boundaries that passed
  have hinv := forRange_inv (P := fun _ (s : PlanState) => ∀ i, boundaryBit s.words i = true →
    ∃ id left right, FusedBoundary graph policy i id left right) (fun i hbit => ?_)
    (fun k s s' _ hs hstep i hbit => ?_) hloop
  · simp only [FusionPlan.boundaryFused, Bool.and_eq_true] at hi
    exact hinv i hi.2
  · -- no bit is set at first
    rw [boundaryBit, List.getElem?_replicate] at hbit
    split at hbit <;> simp at hbit
  · simp only [planBoundary, bind_eq_ok, fetch_eq_ok, pure_eq_ok] at hstep
    obtain ⟨left, hleft, right, hright, leftPolicy, hlp, rightPolicy, hrp, rfl⟩ := hstep
    dsimp only at hbit
    split at hbit
    · next hfused =>
      rcases boundaryBit_markBoundary hbit with rfl | hold
      · exact ⟨_, left, right, evaluateBoundary_fused hleft hright hlp hrp
          (settleBoundary_fused hfused)⟩
      · exact hs i hold
    · exact hs i hbit

/-! ### Executions -/

section Execution

variable {V : Type} (effect : Nat → List V → UInt64 → V → V)

/-- The dispatch of node number `k`: `effect` gives what it leaves in a buffer it writes, from
what it reads and what the buffer held before. -/
def dispatch (k : Nat) (node : GraphNode) (buffers : UInt64 → V) : UInt64 → V := fun id =>
  if node.writesTo id then effect k (node.readIds.map buffers) id (buffers id) else buffers id

/-- The nodes one after the other. -/
def runGraph (nodes : List GraphNode) (buffers : UInt64 → V) : UInt64 → V :=
  nodes.zipIdx.foldl (fun buffers x => dispatch effect x.2 x.1 buffers) buffers

/-- The buffers, and the value that is handed over to the next node without being stored. -/
structure FusedState (V : Type) where
  buffers : UInt64 → V
  carried : Option (UInt64 × V) := none

/-- A read inside a fused region. -/
def FusedState.read (state : FusedState V) (id : UInt64) : V :=
  match state.carried with
  | some (carriedId, value) => if id = carriedId then value else state.buffers id
  | none => state.buffers id

/-- One node of a fused execution.  Nothing is stored before the last node of a region, so the
nodes of a region make up one dispatch. -/
def fusedDispatch (plan : FusionPlan) (k : Nat) (node : GraphNode) (state : FusedState V) :
    FusedState V :=
  let after (id : UInt64) := effect k (node.readIds.map state.read) id (state.buffers id)
  if plan.boundaryFused k then
    { buffers := state.buffers, carried := node.writeIds.head?.map fun id => (id, after id) }
  else { buffers := fun id => if node.writesTo id then after id else state.buffers id }

/-- The execution of a plan. -/
def runFused (plan : FusionPlan) (nodes : List GraphNode) (buffers : UInt64 → V) : UInt64 → V :=
  (nodes.zipIdx.foldl (fun state x => fusedDispatch effect plan x.2 x.1 state)
    { buffers := buffers }).buffers

/-- Whoever writes a buffer that the plan drops replaces what it held. -/
def ReplacesIntermediates (graph : Graph) (policy : List FusionNodePolicy) : Prop :=
  ∀ i id left right, FusedBoundary graph policy i id left right →
    ∀ (k : Nat) (node : GraphNode), graph.nodes[k]? = some node → node.writesTo id = true →
      ∀ reads v v', effect k reads id v = effect k reads id v'

end Execution

/-- The version the buffer has after the first `k` nodes is one that the plan drops. -/
def Dropped (graph : Graph) (policy : List FusionNodePolicy) (plan : FusionPlan) (k : Nat)
    (id : UInt64) : Prop :=
  ∃ w left right, w < k ∧ plan.boundaryFused w = true ∧
    FusedBoundary graph policy w id left right ∧
      ∀ j node, w < j → j < k → graph.nodes[j]? = some node → node.writesTo id = false

/-- A dropped version is read by nobody behind its consumer. -/
theorem versionReads_pos {id : UInt64} {nodes : List GraphNode} {m : Nat} {node : GraphNode}
    (hm : nodes[m]? = some node) (hread : 0 < node.readCount id)
    (hfree : ∀ (j : Nat) (between : GraphNode), j < m → nodes[j]? = some between →
      between.writesTo id = false) : 0 < versionReads id nodes := by
  induction nodes generalizing m with
  | nil => simp at hm
  | cons first rest ih =>
      rw [versionReads]
      cases m with
      | zero =>
          obtain rfl : first = node := by simpa using hm
          omega
      | succ m =>
          have hrest := ih (by simpa using hm) fun j between hj hb =>
            hfree (j + 1) between (by omega) (by simpa using hb)
          rw [hfree 0 first (by omega) rfl]
          simp
          omega

theorem FusedBoundary.only_consumer {graph : Graph} {policy : List FusionNodePolicy} {w m : Nat}
    {id : UInt64} {left right node : GraphNode} (h : FusedBoundary graph policy w id left right)
    (hm : graph.nodes[m]? = some node) (hwm : w + 1 < m)
    (hfree : ∀ j between, w < j → j < m → graph.nodes[j]? = some between →
      between.writesTo id = false) : id ∉ node.readIds := by
  intro hmem
  have hread : 0 < node.readCount id := by
    rw [readCount_eq]
    exact List.count_pos_iff.mpr hmem
  -- the consumer has read the version once, and this node reads it again
  have hdrop : graph.nodes.drop (w + 1) = right :: graph.nodes.drop (w + 2) := by
    obtain ⟨hlt, hright⟩ := List.getElem?_eq_some_iff.mp h.right_eq
    rw [List.drop_eq_getElem_cons hlt, hright]
  have hrest : 0 < versionReads id (graph.nodes.drop (w + 2)) := by
    refine versionReads_pos (m := m - (w + 2)) ?_ hread fun j between hj hb => ?_
    · rw [List.getElem?_drop, show w + 2 + (m - (w + 2)) = m by omega]
      exact hm
    · rw [List.getElem?_drop] at hb
      exact hfree (w + 2 + j) between (by omega) (by omega) hb
  have hversion := h.version
  rw [hdrop, versionReads, hfree (w + 1) right (by omega) hwm h.right_eq, readCount_eq,
    h.reads] at hversion
  simp at hversion
  omega

section Execution

variable {V : Type} {effect : Nat → List V → UInt64 → V → V} {graph : Graph}
  {policy : List FusionNodePolicy} {plan : FusionPlan}

/-- The two executions after `k` nodes: equal buffers but for dropped versions, and the value
handed over is the one the original execution has stored. -/
structure FusedTracks (graph : Graph) (policy : List FusionNodePolicy) (plan : FusionPlan) (k : Nat)
    (buffers : UInt64 → V) (state : FusedState V) : Prop where
  stored : ∀ id, ¬ Dropped graph policy plan k id → state.buffers id = buffers id
  carried : ∀ w id left right, w + 1 = k → plan.boundaryFused w = true →
    FusedBoundary graph policy w id left right → state.carried = some (id, buffers id)
  idle : (∀ w, w + 1 = k → plan.boundaryFused w = false) → state.carried = none

variable (hplan : planFusion graph policy = Except.ok plan)
  (hreplace : ReplacesIntermediates effect graph policy)
include hplan

/-- Every read of the next node gets the value it gets in the original execution. -/
theorem FusedTracks.read_eq {k : Nat} {node : GraphNode} {buffers : UInt64 → V} {state : FusedState V}
    (h : FusedTracks graph policy plan k buffers state) (hk : graph.nodes[k]? = some node) {id : UInt64}
    (hid : id ∈ node.readIds) : state.read id = buffers id := by
  -- a dropped version that the node reads is the one handed over
  have hdropped : ∀ w left right, w < k → plan.boundaryFused w = true →
      FusedBoundary graph policy w id left right →
      (∀ j between, w < j → j < k → graph.nodes[j]? = some between →
        between.writesTo id = false) → w + 1 = k := by
    intro w left right hwk _ hfused hfree
    by_contra hne
    exact hfused.only_consumer hk (by omega) hfree hid
  by_cases hlast : ∃ w, w + 1 = k ∧ plan.boundaryFused w = true
  · obtain ⟨w, hwk, hw⟩ := hlast
    obtain ⟨c, left, right, hfused⟩ := planFusion_boundary hplan hw
    rw [FusedState.read, h.carried w c left right hwk hw hfused]
    by_cases hc : id = c
    · simp [hc]
    · simp only [hc, if_false]
      refine h.stored id ?_
      rintro ⟨w', left', right', hlt, hw', hfused', hfree⟩
      obtain rfl : w' = w := by
        have := hdropped w' left' right' hlt hw' hfused' hfree
        omega
      have hsame : [id] = [c] := by
        obtain rfl : left' = left := by simpa [hfused'.left_eq] using hfused.left_eq
        rw [← hfused'.writes, hfused.writes]
      exact hc (by simpa using hsame)
  · have hidle : ∀ w, w + 1 = k → plan.boundaryFused w = false := by
      intro w hwk
      by_contra hw
      exact hlast ⟨w, hwk, by simpa using hw⟩
    rw [FusedState.read, h.idle hidle]
    refine h.stored id ?_
    rintro ⟨w, left, right, hlt, hw, hfused, hfree⟩
    have hwk := hdropped w left right hlt hw hfused hfree
    rw [hidle w hwk] at hw
    exact absurd hw (by decide)

include hreplace in
/-- What the next node leaves in a buffer it writes is the same in both executions. -/
theorem FusedTracks.effect_eq {k : Nat} {node : GraphNode} {buffers : UInt64 → V} {state : FusedState V}
    (h : FusedTracks graph policy plan k buffers state) (hk : graph.nodes[k]? = some node) {id : UInt64}
    (hid : node.writesTo id = true) :
    effect k (node.readIds.map state.read) id (state.buffers id) =
      effect k (node.readIds.map buffers) id (buffers id) := by
  have hreads : node.readIds.map state.read = node.readIds.map buffers :=
    List.map_congr_left fun _ hmem => h.read_eq hplan hk hmem
  rw [hreads]
  by_cases hdropped : Dropped graph policy plan k id
  · obtain ⟨w, left, right, -, -, hfused, -⟩ := hdropped
    exact hreplace w id left right hfused k node hk hid _ _ _
  · rw [h.stored id hdropped]

omit hplan in
/-- A dropped version stays dropped while the buffer is not written. -/
theorem Dropped.succ {k : Nat} {node : GraphNode} {id : UInt64}
    (h : Dropped graph policy plan k id) (hk : graph.nodes[k]? = some node)
    (hid : node.writesTo id = false) : Dropped graph policy plan (k + 1) id := by
  obtain ⟨w, left, right, hlt, hw, hfused, hfree⟩ := h
  refine ⟨w, left, right, by omega, hw, hfused, fun j between hj hjk hb => ?_⟩
  rcases Nat.lt_succ_iff_lt_or_eq.mp hjk with hlt' | rfl
  · exact hfree j between hj hlt' hb
  · obtain rfl : node = between := by simpa [hk] using hb
    exact hid

include hreplace in
/-- One node keeps the two executions together. -/
theorem FusedTracks.step {k : Nat} {node : GraphNode} {buffers : UInt64 → V} {state : FusedState V}
    (h : FusedTracks graph policy plan k buffers state) (hk : graph.nodes[k]? = some node) :
    FusedTracks graph policy plan (k + 1) (dispatch effect k node buffers)
      (fusedDispatch effect plan k node state) := by
  cases hfusedk : plan.boundaryFused k with
  | true =>
      obtain ⟨c, left, right, hfused⟩ := planFusion_boundary hplan hfusedk
      obtain rfl : left = node := by simpa [hfused.left_eq] using hk
      have hwrites : left.writesTo c = true := by
        rw [← mem_writeIds, hfused.writes]
        exact List.mem_singleton.mpr rfl
      refine ⟨fun id hid => ?_, fun w id left' right' hwk hw hfused' => ?_, fun hidle => ?_⟩
      · -- the buffer written now is dropped, and the others are as before
        have hother : left.writesTo id = false := by
          by_contra hwrite
          have hmem : id ∈ left.writeIds := mem_writeIds.mpr (by simpa using hwrite)
          rw [hfused.writes, List.mem_singleton] at hmem
          subst hmem
          exact hid ⟨k, left, right, by omega, hfusedk, hfused, fun j _ hj hjk => by omega⟩
        have hbefore : ¬ Dropped graph policy plan k id := fun hd => hid (hd.succ hk hother)
        simp only [fusedDispatch, hfusedk, if_true, dispatch, hother]
        exact h.stored id hbefore
      · obtain rfl : w = k := by omega
        obtain rfl : id = c := by
          have hids := hfused'.writes
          obtain rfl : left' = left := by simpa [hfused'.left_eq] using hk
          rw [hfused.writes] at hids
          simpa using hids.symm
        simp only [fusedDispatch, hfusedk, if_true, hfused.writes, List.head?_cons,
          Option.map_some, dispatch, hwrites]
        rw [h.effect_eq hplan hreplace hk hwrites]
      · rw [hidle k rfl] at hfusedk
        exact absurd hfusedk (by decide)
  | false =>
      refine ⟨fun id hid => ?_, fun w id left right hwk hw => ?_, fun _ => ?_⟩
      · by_cases hwrite : node.writesTo id = true
        · simp only [fusedDispatch, hfusedk, dispatch, hwrite, if_true, Bool.false_eq_true, if_false]
          exact h.effect_eq hplan hreplace hk hwrite
        · simp only [fusedDispatch, hfusedk, dispatch, hwrite, Bool.false_eq_true, if_false]
          exact h.stored id fun hd => hid (hd.succ hk (by simpa using hwrite))
      · obtain rfl : w = k := by omega
        rw [hfusedk] at hw
        exact absurd hw (by decide)
      · simp [fusedDispatch, hfusedk]

include hreplace in
theorem tracks_run (buffers : UInt64 → V) {k : Nat} (hk : k ≤ graph.nodes.length) :
    FusedTracks graph policy plan k
      ((graph.nodes.zipIdx.take k).foldl (fun b x => dispatch effect x.2 x.1 b) buffers)
      ((graph.nodes.zipIdx.take k).foldl (fun s x => fusedDispatch effect plan x.2 x.1 s)
        { buffers := buffers }) := by
  induction k with
  | zero =>
      refine ⟨fun _ _ => rfl, fun w _ _ _ hw => absurd hw (by omega), fun _ => rfl⟩
  | succ k ih =>
      obtain ⟨node, hnode⟩ : ∃ node, graph.nodes[k]? = some node :=
        ⟨_, List.getElem?_eq_getElem (by omega)⟩
      have hzip : graph.nodes.zipIdx[k]? = some (node, k) := by
        rw [List.getElem?_zipIdx, hnode]
        simp
      have htake : graph.nodes.zipIdx.take (k + 1) = graph.nodes.zipIdx.take k ++ [(node, k)] := by
        rw [List.take_add_one, hzip]
        rfl
      rw [htake, List.foldl_append, List.foldl_append]
      exact (ih (by omega)).step hplan hreplace hnode

end Execution

/-! ### Legality -/

/-- The facts of the caller are true to the graph: whoever writes an output says so, and a
controlled node is not supported. -/
structure PolicyTruthful (graph : Graph) (policy : List FusionNodePolicy) : Prop where
  visible : ∀ (k : Nat) (node : GraphNode) (p : FusionNodePolicy), graph.nodes[k]? = some node →
    policy[k]? = some p → ∀ id ∈ graph.outputs, node.writesTo id = true → p.writesVisible = true
  uncontrolled : ∀ (k : Nat) (node : GraphNode) (p : FusionNodePolicy),
    graph.nodes[k]? = some node → policy[k]? = some p → p.supported = true →
      node.control.hasCount = false ∧ node.control.hasPredicate = false

/-- A valid control without a count and a predicate is the default one. -/
theorem GraphControl.eq_default {control : GraphControl} {bufferCount : Nat}
    (hvalid : control.valid bufferCount = true) (hcount : control.hasCount = false)
    (hpredicate : control.hasPredicate = false) : control = {} := by
  simp only [GraphControl.valid, GraphControl.countValid, GraphControl.predicateValid, hcount,
    hpredicate, Bool.and_eq_true, Bool.false_or, Bool.or_false, beq_iff_eq, Bool.false_eq_true,
    if_false] at hvalid
  simp only [GraphControl.hasCount, GraphControl.hasPredicate, bne_eq_false_iff_eq] at hcount hpredicate
  obtain ⟨cs, cb, co, cap, ps, pb, po, pe, it⟩ := control
  simp_all

theorem validateGraph_control {graph : Graph} {input : GraphHash}
    (h : validateGraph graph = Except.ok input) {node : GraphNode} (hmem : node ∈ graph.nodes) :
    node.control.valid node.buffers.length = true := by
  simp only [validateGraph, bind_eq_ok] at h
  obtain ⟨-, -, _, hnodes, -⟩ := h
  have hnode := forEach_checks hnodes node hmem
  simp only [validateGraphNode, validateNodeBuffers, bind_eq_ok, require_eq_ok] at hnode
  obtain ⟨-, -, -, -, -, -, hcontrol, -⟩ := hnode
  exact hcontrol

/-- A map that reads one buffer and writes another. -/
def mapNode (input output : UInt64) (control : GraphControl) : GraphNode :=
  { opHashHi := 1, buffers := [{ logicalId := input }, { logicalId := output, role := .write }],
    elementCount := 4, control := control }

/-- The policy of a supported map with nothing visible. -/
def mapPolicy (visible : Bool) : FusionNodePolicy :=
  { directReadMask := 1, supported := true, writesVisible := visible, bindingCount := 2,
    irNodeCount := 3 }

/-- Two maps in a row, with the control of the first and the outputs of the graph. -/
def chainGraph (control : GraphControl) (outputs : List UInt64) : Graph :=
  { nodes := [mapNode 1 2 control, mapNode 2 3 {}], outputs := outputs }

/-- The plan fuses the boundary, and what it does there satisfies `test`. -/
def planFuses (graph : Graph) (policy : List FusionNodePolicy) (i : Nat)
    (test : FusionPlan → Bool) : Bool :=
  match planFusion graph policy with
  | Except.ok plan => plan.boundaryFused i && test plan
  | Except.error _ => false

theorem planFuses_iff {graph : Graph} {policy : List FusionNodePolicy} {i : Nat}
    {test : FusionPlan → Bool} :
    planFuses graph policy i test = true ↔ ∃ plan, planFusion graph policy = Except.ok plan ∧
      plan.boundaryFused i = true ∧ test plan = true := by
  rw [planFuses]
  cases planFusion graph policy <;> simp

/-- Every dispatch adds one to the sum of what it reads. -/
def sumEffect (_k : Nat) (reads : List Nat) (_id : UInt64) (_before : Nat) : Nat := reads.sum + 1

/-- The control of a node that runs only when the first word of its first buffer is one. -/
def predicated : GraphControl :=
  { predicateSource := .u32, predicateBinding := 0, predicateExpected := 1 }

end RunD
