/-
What a program computes for one element.

The nodes are gone through in order.  A node that has a value leaves it in the
register of its number: a parameter, an element of a buffer, the index of the
element, or the result of an operation on earlier registers.  A register comes
with the fraction bits of its node, which an operation on it is prepared with.
A write stores a register in a buffer.

What operations do to lanes is a parameter, and so is what becomes of a lane
that is stored and of an element that is loaded.
-/
import RunD.IrSafety

namespace RunD

/-! ### Operands -/

/-- How many operands of an operation name nodes. -/
def refCount (op : IrOp) : Nat := (parsedNodeResourcesFor { op }).refs.length

/-- A node without the numbers of the nodes it refers to. -/
def ParsedNode.bare (node : ParsedNode) : ParsedNode :=
  { node with
    lhs := if 0 < refCount node.op then 0 else node.lhs
    rhs := if 1 < refCount node.op then 0 else node.rhs
    aux := if 2 < refCount node.op then 0 else node.aux }

/-! ### Registers -/

/-- A register: a lane, and the fraction bits of its node. -/
structure LaneValue (Lane : Type) where
  fraction : UInt8
  lane : Lane
  deriving DecidableEq, Repr

/-- The arithmetic of lanes, and how lanes and elements of buffers become one another. -/
structure LaneMachine (Lane Cell : Type) where
  /-- An operation on registers. -/
  apply : ParsedNode → List (LaneValue Lane) → Lane
  /-- A parameter of so many bytes. -/
  param : UInt32 → List UInt8 → Lane
  /-- The index of an element. -/
  index : Nat → Lane
  load : Cell → Lane
  /-- A lane as an element of so many bytes. -/
  store : UInt32 → Lane → Cell
  /-- An element that is an index. -/
  word : Cell → Nat
  zero : Lane

/-- The registers that are filled, and what was written, with the binding of each write. -/
structure LaneRun (Lane Cell : Type) where
  values : List (LaneValue Lane) := []
  writes : List (Nat × Cell) := []

section Run

variable {Lane Cell : Type} (machine : LaneMachine Lane Cell) (bindings : List ParsedBinding)
  (buffers : Nat → Nat → Cell) (element : Nat)

/-- The register that a reference names. -/
def LaneMachine.register (values : List (LaneValue Lane)) (ref : UInt32) : LaneValue Lane :=
  (values[ref.toNat - 1]?).getD { fraction := 0, lane := machine.zero }

/-- The lane of a node; a read through an index that is too large is zero. -/
def laneOf (values : List (LaneValue Lane)) (node : ParsedNode) : Lane :=
  match node.op with
  | .param => (bindings[node.aux.toNat]?).elim machine.zero fun binding =>
      machine.param binding.elementBytes binding.valueBytes
  | .read => machine.load (buffers node.aux.toNat element)
  | .readUniform => machine.load (buffers node.aux.toNat 0)
  | .readAt =>
      let place := machine.word (buffers node.lhs.toNat element)
      if place < node.rhs.toNat then machine.load (buffers node.aux.toNat place) else machine.zero
  | .index => machine.index element
  | .write => machine.zero
  | _ => machine.apply node.bare ((parsedNodeResourcesFor node).refs.map (machine.register values))

/-- The register of a node. -/
def laneValueOf (values : List (LaneValue Lane)) (node : ParsedNode) : LaneValue Lane :=
  { fraction := node.fixedFormat.fractionBits
    lane := laneOf machine bindings buffers element values node }

/-- What a write stores. -/
def storedCell (values : List (LaneValue Lane)) (node : ParsedNode) : Cell :=
  machine.store ((bindings[node.aux.toNat]?).elim 0 ParsedBinding.elementBytes)
    (machine.register values node.lhs).lane

/-- One node is gone through. -/
def stepLane (run : LaneRun Lane Cell) (node : ParsedNode) : LaneRun Lane Cell where
  values := run.values ++ [laneValueOf machine bindings buffers element run.values node]
  writes := if node.op = .write then
      run.writes ++ [(node.aux.toNat, storedCell machine bindings run.values node)]
    else run.writes

/-- The nodes are gone through in order. -/
def runLane (nodes : List ParsedNode) : LaneRun Lane Cell :=
  nodes.foldl (stepLane machine bindings buffers element) {}

/-- A program on one element. -/
def runMap (parsed : ParsedIR) : LaneRun Lane Cell :=
  runLane machine parsed.bindings buffers element parsed.nodes

variable {machine bindings buffers element}

theorem runLane_concat (nodes : List ParsedNode) (node : ParsedNode) :
    runLane machine bindings buffers element (nodes ++ [node]) =
      stepLane machine bindings buffers element
        (runLane machine bindings buffers element nodes) node := by
  rw [runLane, List.foldl_append]
  rfl

@[simp] theorem stepLane_values (run : LaneRun Lane Cell) (node : ParsedNode) :
    (stepLane machine bindings buffers element run node).values =
      run.values ++ [laneValueOf machine bindings buffers element run.values node] := rfl

theorem stepLane_writes_of_ne {run : LaneRun Lane Cell} {node : ParsedNode} (h : node.op ≠ .write) :
    (stepLane machine bindings buffers element run node).writes = run.writes := if_neg h

theorem stepLane_writes_of_write {run : LaneRun Lane Cell} {node : ParsedNode}
    (h : node.op = .write) :
    (stepLane machine bindings buffers element run node).writes =
      run.writes ++ [(node.aux.toNat, storedCell machine bindings run.values node)] := if_pos h

/-- Every node fills one register. -/
theorem length_runLane (nodes : List ParsedNode) :
    (runLane machine bindings buffers element nodes).values.length = nodes.length := by
  induction nodes using List.reverseRecOn with
  | nil => rfl
  | append_singleton nodes node ih =>
      rw [runLane_concat, stepLane_values, List.length_append, List.length_append, ih,
        List.length_singleton, List.length_singleton]

/-- A register keeps its value. -/
theorem getElem?_runLane_append {nodes : List ParsedNode} {k : Nat} (h : k < nodes.length)
    (rest : List ParsedNode) :
    (runLane machine bindings buffers element (nodes ++ rest)).values[k]? =
      (runLane machine bindings buffers element nodes).values[k]? := by
  induction rest using List.reverseRecOn with
  | nil => rw [List.append_nil]
  | append_singleton rest node ih =>
      rw [← List.append_assoc, runLane_concat, stepLane_values, List.getElem?_append_left, ih]
      rw [length_runLane, List.length_append]
      omega

/-- A register that a node refers to has its value as soon as the nodes before are gone through. -/
theorem register_runLane_take {parsed : ParsedIR} (hrefs : ∀ i node, parsed.nodes[i]? = some node →
    NodeReferences parsed i node) {k : Nat} {node : ParsedNode}
    (hnode : parsed.nodes[k]? = some node) {ref : UInt32} (hmem : ref ∈ valueOperands node) :
    (runLane machine parsed.bindings buffers element (parsed.nodes.take k)).values[ref.toNat - 1]? =
      (runMap machine buffers element parsed).values[ref.toNat - 1]? := by
  obtain ⟨hne, hlt, -⟩ := (hrefs k node hnode).values ref hmem
  have hpos : ref.toNat ≠ 0 := fun h0 => hne (UInt32.toNat_inj.mp h0)
  have hk := (List.getElem?_eq_some_iff.mp hnode).1
  rw [runMap, ← List.take_append_drop k parsed.nodes, getElem?_runLane_append,
    List.take_append_drop]
  rw [List.length_take]
  omega

end Run

end RunD
