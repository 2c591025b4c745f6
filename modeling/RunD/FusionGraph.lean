/-
Compute graphs: an ordered schedule of nodes over logical buffers, the checks
a graph has to pass, and its identity.

A node names the buffers it reads and writes.  It may be controlled: a count
or a predicate in one of its read buffers then decides how much of it runs.
Enumerations that come from outside keep the bytes that name no enumerator.
-/
import RunD.ComputeModel

namespace RunD

/-! ### Graphs -/

inductive BufferRole where
  | read
  | write
  | unlisted (raw : UInt8)
  deriving DecidableEq, Repr

inductive BufferInit where
  | preserve
  | zero
  | unlisted (raw : UInt8)
  deriving DecidableEq, Repr

inductive GraphControlSource where
  | descriptor
  | u32
  | u64
  | unlisted (raw : UInt8)
  deriving DecidableEq, Repr

inductive NodeKind where
  | map
  | scan
  | sort
  | compact
  | gather
  | reduce
  | scatter
  | partition
  | segmentedScan
  | stencil
  | histogram
  | segmentedReduce
  | transform
  | matrix
  | factor
  | solve
  | spectrum
  | scatterReduce
  | window
  | unlisted (raw : UInt8)
  deriving DecidableEq, Repr

structure GraphBufferRef where
  logicalId : UInt64 := 0
  role : BufferRole := .read
  init : BufferInit := .preserve
  deriving DecidableEq, Repr

/-- `kNoGraphControlBinding`. -/
def kNoGraphControlBinding : UInt32 := 0xffffffff

structure GraphControl where
  countSource : GraphControlSource := .descriptor
  countBinding : UInt32 := kNoGraphControlBinding
  countByteOffset : UInt64 := 0
  capacity : UInt64 := 0
  predicateSource : GraphControlSource := .descriptor
  predicateBinding : UInt32 := kNoGraphControlBinding
  predicateByteOffset : UInt64 := 0
  predicateExpected : UInt64 := 0
  iteration : UInt32 := 0
  deriving DecidableEq, Repr

structure GraphNode where
  opHashHi : UInt64 := 0
  opHashLo : UInt64 := 0
  buffers : List GraphBufferRef := []
  kind : NodeKind := .map
  primitiveHashHi : UInt64 := 0
  primitiveHashLo : UInt64 := 0
  elementCount : UInt64 := 0
  control : GraphControl := {}
  deriving DecidableEq, Repr

structure Graph where
  nodes : List GraphNode := []
  outputs : List UInt64 := []
  scalar : ComputeScalar := .lane32
  domain : ComputeDomain := .i32
  fixedFormat : ComputeFixedFormat := {}
  deriving DecidableEq, Repr

def kMaxGraphNodeCount : Nat := 16 * kMaxComputeNodeCount

def kMaxGraphBuffersPerNode : Nat := kMaxComputeBindingCount

def kMaxGraphOutputCount : Nat := 64

/-! ### What a node reads and writes -/

/-- The reference reads the buffer. -/
def GraphBufferRef.reads (id : UInt64) (ref : GraphBufferRef) : Bool :=
  ref.role == .read && ref.logicalId == id

/-- The reference writes the buffer. -/
def GraphBufferRef.writes (id : UInt64) (ref : GraphBufferRef) : Bool :=
  ref.role == .write && ref.logicalId == id

/-- How often the node reads the buffer. -/
def GraphNode.readCount (node : GraphNode) (id : UInt64) : Nat :=
  node.buffers.countP (GraphBufferRef.reads id)

/-- The node writes the buffer. -/
def GraphNode.writesTo (node : GraphNode) (id : UInt64) : Bool :=
  node.buffers.any (GraphBufferRef.writes id)

/-! ### Validation -/

def GraphControl.hasCount (control : GraphControl) : Bool := control.countSource != .descriptor

def GraphControl.hasPredicate (control : GraphControl) : Bool :=
  control.predicateSource != .descriptor

def graphControlSourceValid (source : GraphControlSource) : Bool :=
  source == .descriptor || source == .u32 || source == .u64

/-- The offset is a multiple of the width of the source. -/
def controlOffsetAligned (source : GraphControlSource) (offset : UInt64) : Bool :=
  !(source == .u32 && offset &&& 3 != 0) && !(source == .u64 && offset &&& 7 != 0)

def GraphControl.countValid (control : GraphControl) (bufferCount : Nat) : Bool :=
  if control.hasCount then
    decide (control.countBinding.toNat < bufferCount) && control.capacity != 0 &&
      controlOffsetAligned control.countSource control.countByteOffset
  else control.countBinding == kNoGraphControlBinding && control.countByteOffset == 0

def GraphControl.predicateValid (control : GraphControl) (bufferCount : Nat) : Bool :=
  if control.hasPredicate then
    decide (control.predicateBinding.toNat < bufferCount) &&
      controlOffsetAligned control.predicateSource control.predicateByteOffset &&
      !(control.predicateSource == .u32 && decide (control.predicateExpected > 0xffffffff))
  else
    control.predicateBinding == kNoGraphControlBinding && control.predicateByteOffset == 0 &&
      control.predicateExpected == 0 && (control.iteration == 0 || control.hasCount)

/-- `GraphControl::valid`. -/
def GraphControl.valid (control : GraphControl) (bufferCount : Nat) : Bool :=
  graphControlSourceValid control.countSource && graphControlSourceValid control.predicateSource &&
    control.countValid bufferCount && control.predicateValid bufferCount &&
    (control.hasCount || control.capacity == 0)

def domainMatchesScalar (domain : ComputeDomain) : ComputeScalar → Bool
  | .lane32 => domain == .i32 || domain == .u32 || domain == .fixed
  | .lane64 => domain == .i64 || domain == .u64 || domain == .fixed
  | .invalid => false

def nodeKindValid : NodeKind → Bool
  | .unlisted _ => false
  | _ => true

def validateGraphHeader (graph : Graph) : Checked String Unit := do
  require (graph.nodes ≠ []) "compute_graph_empty"
  require (graph.scalar ≠ .invalid ∧ domainMatchesScalar graph.domain graph.scalar ∧
    (if graph.domain = .fixed then computeFixedFormatValid graph.scalar graph.fixedFormat
      else computeFixedFormatAbsent graph.fixedFormat)) "compute_graph_numeric_invalid"
  require (graph.nodes.length ≤ kMaxGraphNodeCount) "compute_graph_node_count_invalid"
  require (graph.outputs.length ≤ kMaxGraphOutputCount ∧ graph.outputs.all (· != 0))
    "compute_graph_output_invalid"

def validateNodeIdentity (node : GraphNode) : Checked String Unit := do
  require (nodeKindValid node.kind) "compute_graph_node_invalid"
  if node.kind = .map then
    require (¬ (node.opHashHi = 0 ∧ node.opHashLo = 0)) "compute_graph_node_invalid"
    require (node.primitiveHashHi = 0 ∧ node.primitiveHashLo = 0 ∧ node.elementCount ≠ 0)
      "compute_graph_primitive_invalid"
  else
    require (¬ (node.primitiveHashHi = 0 ∧ node.primitiveHashLo = 0) ∧ node.elementCount ≠ 0 ∧
      node.opHashHi = 0 ∧ node.opHashLo = 0) "compute_graph_primitive_invalid"

def bufferRefValid (buffer : GraphBufferRef) : Bool :=
  buffer.logicalId != 0 && (buffer.role == .read || buffer.role == .write) &&
    (buffer.init == .preserve || buffer.init == .zero) &&
    !(buffer.role == .read && buffer.init != .preserve)

/-- `buffers[binding].role == BufferRole::Read`. -/
def GraphNode.bindingReads (node : GraphNode) (binding : UInt32) : Bool :=
  node.buffers[binding.toNat]?.any fun buffer => buffer.role == .read

def validateNodeBuffers (node : GraphNode) : Checked String Unit := do
  require (node.buffers.length ≤ kMaxGraphBuffersPerNode) "compute_graph_buffer_count_invalid"
  require (node.buffers ≠ [] ∧ ∀ buffer ∈ node.buffers, bufferRefValid buffer)
    "compute_graph_buffer_invalid"
  require (node.control.valid node.buffers.length ∧
    ¬ (node.control.hasCount ∧ (node.control.capacity ≠ node.elementCount ∨
      node.bindingReads node.control.countBinding = false)) ∧
    ¬ (node.control.hasPredicate ∧ node.bindingReads node.control.predicateBinding = false))
    "compute_graph_control_invalid"

def validateGraphNode (node : GraphNode) : Checked String Unit := do
  validateNodeIdentity node
  validateNodeBuffers node

/-! ### Identity -/

structure GraphHash where
  hi : UInt64
  lo : UInt64
  deriving DecidableEq, Repr

def avalanche64 (value : UInt64) : UInt64 :=
  let value := value ^^^ (value >>> 30)
  let value := value * 0xbf58476d1ce4e5b9
  let value := value ^^^ (value >>> 27)
  let value := value * 0x94d049bb133111eb
  value ^^^ (value >>> 31)

def GraphHash.mix (hash : GraphHash) (value : UInt64) : GraphHash :=
  let salt : UInt64 := 0x9e3779b97f4a7c15
  let mixed := avalanche64 (value + salt + hash.hi + hash.lo <<< (6 : UInt64) +
    hash.lo >>> (2 : UInt64))
  { hi := avalanche64 (hash.hi ^^^ mixed), lo := avalanche64 (hash.lo + mixed + 0x517cc1b727220a95) }

/-- Mixing in several values, one after the other. -/
def GraphHash.mixAll (hash : GraphHash) (values : List UInt64) : GraphHash :=
  values.foldl GraphHash.mix hash

def ComputeScalar.code : ComputeScalar → UInt64
  | .invalid => 0
  | .lane32 => 1
  | .lane64 => 2

def ComputeDomain.code : ComputeDomain → UInt64
  | .unknown => 0
  | .i32 => 1
  | .u32 => 2
  | .i64 => 3
  | .u64 => 4
  | .fixed => 5

def BufferRole.code : BufferRole → UInt64
  | .read => 1
  | .write => 2
  | .unlisted raw => raw.toUInt64

def BufferInit.code : BufferInit → UInt64
  | .preserve => 0
  | .zero => 1
  | .unlisted raw => raw.toUInt64

def GraphControlSource.code : GraphControlSource → UInt64
  | .descriptor => 0
  | .u32 => 1
  | .u64 => 2
  | .unlisted raw => raw.toUInt64

def NodeKind.code : NodeKind → UInt64
  | .map => 1
  | .scan => 2
  | .sort => 3
  | .compact => 4
  | .gather => 8
  | .reduce => 9
  | .scatter => 10
  | .partition => 11
  | .segmentedScan => 12
  | .stencil => 13
  | .histogram => 14
  | .segmentedReduce => 15
  | .transform => 16
  | .matrix => 17
  | .factor => 18
  | .solve => 19
  | .spectrum => 20
  | .scatterReduce => 21
  | .window => 22
  | .unlisted raw => raw.toUInt64

def mixBufferIdentity (hash : GraphHash) (buffer : GraphBufferRef) (index : Nat) : GraphHash :=
  let hash := hash.mixAll [UInt64.ofNat index, buffer.logicalId, buffer.role.code]
  if buffer.init = .preserve then hash
  else hash.mixAll [0x627566666572696e, buffer.init.code]

def mixControlIdentity (hash : GraphHash) (control : GraphControl) : GraphHash :=
  if !control.hasCount && !control.hasPredicate then hash
  else
    hash.mixAll [0x636f6e74726f6c01, control.countSource.code, control.countBinding.toUInt64,
      control.countByteOffset, control.capacity, control.predicateSource.code,
      control.predicateBinding.toUInt64, control.predicateByteOffset, control.predicateExpected,
      control.iteration.toUInt64]

def mixNodeIdentity (hash : GraphHash) (node : GraphNode) (index : Nat) : GraphHash :=
  let hash := hash.mix (UInt64.ofNat index)
  let hash :=
    if node.kind = .map then hash.mixAll [node.opHashHi, node.opHashLo, node.elementCount]
    else hash.mixAll [node.kind.code, node.primitiveHashHi, node.primitiveHashLo, node.elementCount]
  let hash := hash.mix (UInt64.ofNat node.buffers.length)
  let hash := node.buffers.zipIdx.foldl (fun hash x => mixBufferIdentity hash x.1 x.2) hash
  mixControlIdentity hash node.control

def hashGraph (graph : Graph) : GraphHash :=
  let format := graph.fixedFormat
  let hash : GraphHash := { hi := 0x6a09e667f3bcc909, lo := 0xbb67ae8584caa73b }
  let hash := hash.mixAll [graph.scalar.code, format.integerBits.toUInt64,
    format.fractionBits.toUInt64, format.rounding.toUInt64, format.overflow.toUInt64,
    format.approximation.toUInt64]
  let hash :=
    if graph.domain ≠ .fixed then hash.mixAll [0x646f6d61696e0001, graph.domain.code] else hash
  let hash := hash.mix (UInt64.ofNat graph.nodes.length)
  let hash := graph.nodes.zipIdx.foldl (fun hash x => mixNodeIdentity hash x.1 x.2) hash
  let hash :=
    if graph.outputs ≠ [] then
      graph.outputs.zipIdx.foldl (fun hash x => hash.mixAll [UInt64.ofNat x.2, x.1])
        (hash.mix (UInt64.ofNat graph.outputs.length))
    else hash
  if hash.hi = 0 ∧ hash.lo = 0 then { hash with lo := 0x9e3779b97f4a7c15 } else hash

/-- `ValidateGraph`, with the identity it computes at the end. -/
def validateGraph (graph : Graph) : Checked String GraphHash := do
  validateGraphHeader graph
  forEach graph.nodes (fun node _ => validateGraphNode node) ()
  require (graph.outputs.all fun output => graph.nodes.any (·.writesTo output))
    "compute_graph_output_invalid"
  pure (hashGraph graph)

end RunD
