/-
The builder of fused maps, `BuildFusedComputeMapChainIR`.

A chain of maps whose plan fuses all of them is made one program: the bindings
of the maps are put together by kind, without those of the buffers in between,
and the nodes one map after the other, renumbered.  The node that writes a buffer
in between is dropped, and the number of the value it writes takes the place of
the node that reads it.
-/
import RunD.ComputeLane
import RunD.ComputeResources
import RunD.DispatchPlan
import RunD.FusionPlan

namespace RunD

/-! ### Admission -/

/-- `ComputeIrHash`. -/
structure ComputeIrHash where
  hi : UInt64
  lo : UInt64
  deriving DecidableEq, Repr

/-- One turn of the loop of `HashComputeIrCanonicalBytes`. -/
def hashComputeIrByte (hash : ComputeIrHash) (byte : UInt8) : ComputeIrHash :=
  let mixed := byte.toUInt64 + (0x9e3779b97f4a7c15 : UInt64) + hash.lo <<< 6 + hash.lo >>> 2
  { hi := (hash.hi ^^^ byte.toUInt64) * 1099511628211
    lo := (hash.lo ^^^ mixed) * 14029467366897019727 }

/-- `HashComputeIrCanonicalBytes`. -/
def hashComputeIrCanonicalBytes (bytes : List UInt8) : ComputeIrHash :=
  let hash :=
    bytes.foldl hashComputeIrByte { hi := 14695981039346656037, lo := 10957381669161133421 }
  if hash.hi = 0 ∧ hash.lo = 0 then { hash with lo := 1099511628211 } else hash

/-- `ComputeInputHeaderFailure`; `reason` is what a program that is not ok carries. -/
def checkInputHeader (ir : ComputeIR) (reason : String) (api : ComputeApi) :
    Checked String Unit := do
  require (computeApiValid api) "compute_api_unsupported"
  require (computeScalarValid ir.scalar) "compute_scalar_unsupported"
  require ir.ok reason
  require (ir.canonicalBytes ≠ []) "compute_ir_missing"
  let hash := hashComputeIrCanonicalBytes ir.canonicalBytes
  require (¬ (ir.opHashHi = 0 ∧ ir.opHashLo = 0) ∧ ir.opHashHi = hash.hi ∧ ir.opHashLo = hash.lo)
    "compute_ir_hash_mismatch"

/-- `AdmitComputeInput`. -/
def admitComputeInput (ir : ComputeIR) (reason : String) (api : ComputeApi) :
    Checked String ParsedIR := do
  checkInputHeader ir reason api
  parseAndValidate ir ir.canonicalBytes

/-- `AdmitGeneratedComputeInput`. -/
def admitGeneratedComputeInput (ir : ComputeIR) (api : ComputeApi) (parsed : ParsedIR) :
    Checked String Unit := do
  checkInputHeader ir "ok" api
  require (parsed.scalarMode = domainModeFor ir.scalar ir.domain) "compute_ir_scalar_mismatch"
  require (parsed.fixedFormat = ir.fixedFormat) "compute_ir_numeric_policy_mismatch"
  validateLowerableIR parsed ir.scalar

/-- `MetadataFromParsed`, as far as it can fail. -/
def checkMetadata (ir : ComputeIR) (parsed : ParsedIR) : Checked String Unit := do
  let summary ← call (analyzeComputeResources parsed ir.scalar ir.domain)
  require summary.ok summary.reason
  require (parsed.bindings.any (·.kind == kWriteBindingKind)) "compute_ir_node_invalid"

/-! ### What a map reads and writes -/

/-- `CountBindingsOfKind`. -/
def countBindingsOfKind (parsed : ParsedIR) (kind : UInt8) : Nat :=
  parsed.bindings.countP (·.kind == kind)

/-- `CountGraphBuffersOfRole`. -/
def countGraphBuffersOfRole (node : GraphNode) (role : BufferRole) : Nat :=
  node.buffers.countP (·.role == role)

/-- `BindingIndexForOrdinal`. -/
def bindingIndexForOrdinal (parsed : ParsedIR) (kind : UInt8) (ordinal : Nat) : Nat :=
  ((parsed.bindings.zipIdx.filter fun place => place.1.kind == kind)[ordinal]?).elim
    parsed.bindings.length Prod.snd

/-- `GraphReadOrdinalForLogicalId`. -/
def graphReadOrdinalForLogicalId (node : GraphNode) (logicalId : UInt64) : Nat :=
  ((node.buffers.filter (·.role == .read)).findIdx? (·.logicalId == logicalId)).getD
    node.buffers.length

/-- `IntermediateLogicalId`. -/
def intermediateLogicalId (graph : Graph) (left : Nat) : UInt64 :=
  match graph.nodes[left]?, graph.nodes[left + 1]? with
  | some writer, some reader =>
      (writer.buffers.find? fun buffer => buffer.role == .write &&
        reader.buffers.any (GraphBufferRef.reads buffer.logicalId)).elim 0 GraphBufferRef.logicalId
  | _, _ => 0

/-- `ReadNodeCount`. -/
def readNodeCount (parsed : ParsedIR) (binding : Nat) : Nat :=
  parsed.nodes.countP fun node => node.op == .read && node.aux.toNat == binding

/-! ### Sources -/

/-- `kNoBinding`. -/
def kNoBinding : Nat := 2 ^ 32 - 1

/-- `FusedSource`. -/
structure FusedSource where
  parsed : ParsedIR
  intermediateReadBinding : Nat := kNoBinding
  deriving DecidableEq, Repr

/-- The binding that reads what the source before wrote. -/
def findIntermediate (graph : Graph) (node : GraphNode) (parsed : ParsedIR) (index : Nat) :
    Checked String Nat :=
  if index = 0 then pure kNoBinding
  else do
    let intermediate := intermediateLogicalId graph (index - 1)
    let binding := bindingIndexForOrdinal parsed kReadBindingKind
      (graphReadOrdinalForLogicalId node intermediate)
    require (intermediate ≠ 0 ∧ binding < parsed.bindings.length ∧ readNodeCount parsed binding = 1)
      "compute_fusion_dependency_conflict"
    pure binding

/-- One turn of the loop over the chain. -/
def admitSource (chain : List (ComputeIR × String)) (graph : Graph) (policy : List FusionNodePolicy)
    (api : ComputeApi) (index : Nat) (sources : List FusedSource) :
    Checked String (List FusedSource) := do
  let (ir, reason) ← fetch chain index
  let node ← fetch graph.nodes index
  require (node.kind = .map ∧ ir.scalar = graph.scalar ∧ ir.domain = graph.domain ∧
    (graph.domain = .fixed → ir.fixedFormat = graph.fixedFormat))
    "compute_fusion_dependency_conflict"
  require (node.opHashHi = ir.opHashHi ∧ node.opHashLo = ir.opHashLo) "compute_ir_hash_mismatch"
  let parsed ← admitComputeInput ir reason api
  let writeBindings := countBindingsOfKind parsed kWriteBindingKind
  require (writeBindings ≠ 0 ∧ writeBindings = countGraphBuffersOfRole node .write ∧
    writeBindings = writeNodeCount parsed.nodes ∧
    (index + 1 = chain.length ∨ writeBindings = 1)) "compute_fusion_dependency_conflict"
  let nodePolicy ← fetch policy index
  require (nodePolicy.supported ∧ nodePolicy.bindingCount.toNat = parsed.bindings.length ∧
    nodePolicy.irNodeCount.toNat = parsed.nodes.length) "compute_fusion_policy_invalid"
  let intermediateReadBinding ← findIntermediate graph node parsed index
  pure (sources ++ [{ parsed, intermediateReadBinding }])

/-- The sources of a chain. -/
def admitSources (chain : List (ComputeIR × String)) (graph : Graph)
    (policy : List FusionNodePolicy) (api : ComputeApi) : Checked String (List FusedSource) :=
  forRange chain.length (admitSource chain graph policy api) []

/-! ### Bindings -/

/-- `PrefixedBinding`. -/
def prefixedBinding (index : Nat) (binding : ParsedBinding) : ParsedBinding :=
  { binding with name := ("f" ++ toString index ++ "_").toUTF8.toList ++ binding.name }

/-- `FusedBindingMap`, with the offsets in a function of their own. -/
structure FusedBindingMap where
  bindings : List ParsedBinding := []
  indices : List UInt32
  deriving DecidableEq, Repr

/-- `offsets[index]`. -/
def bindingOffset (sources : List FusedSource) (index : Nat) : Nat :=
  ((sources.take index).map fun source => source.parsed.bindings.length).sum

/-- Whether the loop for one kind adds a binding of a source. -/
def keepsBinding (count : Nat) (kind : UInt8) (source : FusedSource) (index : Nat)
    (binding : ParsedBinding) (place : Nat) : Bool :=
  binding.kind = kind ∧
    ¬ (kind = kReadBindingKind ∧ index ≠ 0 ∧ place = source.intermediateReadBinding) ∧
    ¬ (kind = kWriteBindingKind ∧ index + 1 ≠ count)

/-- The bindings that are added, in the order of the loops over the kinds, the sources and their
bindings: the source, and the place in it. -/
def fusedPlaces (sources : List FusedSource) : List (Nat × Nat) :=
  [kParamBindingKind, kReadBindingKind, kWriteBindingKind].flatMap fun kind =>
    sources.zipIdx.flatMap fun source =>
      (source.1.parsed.bindings.zipIdx.filter fun binding =>
        keepsBinding sources.length kind source.1 source.2 binding.1 binding.2).map fun binding =>
          (source.2, binding.2)

/-- A binding is added. -/
def addBinding (sources : List FusedSource) (place : Nat × Nat) (map : FusedBindingMap) :
    Checked String FusedBindingMap := do
  let source ← fetch sources place.1
  let binding ← fetch source.parsed.bindings place.2
  let indices ← assign map.indices (bindingOffset sources place.1 + place.2)
    (UInt32.ofNat map.bindings.length)
  pure { bindings := map.bindings ++ [prefixedBinding place.1 binding], indices }

/-- `BuildFusedBindingMap`. -/
def buildFusedBindingMap (sources : List FusedSource) : Checked String FusedBindingMap :=
  forEach (fusedPlaces sources) (addBinding sources)
    { indices := List.replicate (bindingOffset sources sources.length) 0 }

/-! ### Nodes -/

/-- The reason for every refusal of the loop over the nodes. -/
def kNodeCountInvalid : String := "compute_ir_node_count_invalid"

/-- The nodes so far, their numbers for the nodes of the source, and the number of the value that
the last source wrote. -/
structure Splice where
  nodes : List ParsedNode := []
  nodeMap : List UInt32 := List.replicate (kMaxComputeNodeCount + 1) 0
  carrier : UInt32 := 0
  deriving DecidableEq, Repr

/-- `*operands[index]`. -/
def ParsedNode.operand (node : ParsedNode) : Nat → UInt32
  | 0 => node.lhs
  | 1 => node.rhs
  | _ => node.aux

/-- `*operands[index] = value`. -/
def ParsedNode.setOperand (node : ParsedNode) (value : UInt32) : Nat → ParsedNode
  | 0 => { node with lhs := value }
  | 1 => { node with rhs := value }
  | _ => { node with aux := value }

/-- One turn of the loop of `RemapFusedValueNode`. -/
def remapOperand (nodeMap : List UInt32) (refs : List UInt32) (index : Nat) (node : ParsedNode) :
    Checked String ParsedNode := do
  let source ← fetch refs index
  require (source ≠ 0 ∧ source.toNat < nodeMap.length ∧ node.operand index = source)
    kNodeCountInvalid
  let target ← fetch nodeMap source.toNat
  require (target ≠ 0) kNodeCountInvalid
  pure (node.setOperand target index)

/-- `RemapFusedValueNode`. -/
def remapFusedValueNode (nodeMap : List UInt32) (node : ParsedNode) :
    Checked String ParsedNode := do
  let resources := parsedNodeResourcesFor node
  require resources.producesValue kNodeCountInvalid
  forRange resources.refs.length (remapOperand nodeMap resources.refs) node

/-- `bindings.indices[BindingMapIndex(bindings, source, binding)]`. -/
def fetchBinding (sources : List FusedSource) (bindings : FusedBindingMap) (index : Nat)
    (binding : UInt32) : Checked String UInt32 :=
  fetch bindings.indices (bindingOffset sources index + binding.toNat)

/-- The operands of a node that stays. -/
def renumberNode (sources : List FusedSource) (bindings : FusedBindingMap) (index : Nat)
    (nodeMap : List UInt32) (node : ParsedNode) : Checked String ParsedNode :=
  match node.op with
  | .param | .read | .readUniform => do
      let aux ← fetchBinding sources bindings index node.aux
      pure { node with aux }
  | .readAt => do
      let lhs ← fetchBinding sources bindings index node.lhs
      let aux ← fetchBinding sources bindings index node.aux
      pure { node with lhs, aux }
  | .write => do
      let lhs ← (if node.lhs ≠ 0 then fetch nodeMap node.lhs.toNat else pure node.lhs)
      let aux ← fetchBinding sources bindings index node.aux
      pure { node with lhs, aux }
  | _ => remapFusedValueNode nodeMap node

/-- One turn of the loop of `BuildFusedNodeMap` over the nodes of a source. -/
def spliceNode (sources : List FusedSource) (bindings : FusedBindingMap) (index : Nat)
    (source : FusedSource) (place : Nat) (splice : Splice) : Checked String Splice := do
  let node ← fetch source.parsed.nodes place
  if index ≠ 0 ∧ node.op = .read ∧ node.aux.toNat = source.intermediateReadBinding then do
    require (splice.carrier ≠ 0) kNodeCountInvalid
    let nodeMap ← assign splice.nodeMap (place + 1) splice.carrier
    pure { splice with nodeMap }
  else if node.op = .write ∧ index + 1 ≠ sources.length then do
    let carrier ← fetch splice.nodeMap node.lhs.toNat
    require (carrier ≠ 0) kNodeCountInvalid
    pure { splice with carrier }
  else do
    let node ← renumberNode sources bindings index splice.nodeMap node
    let nodes := splice.nodes ++ [node]
    let nodeMap ← assign splice.nodeMap (place + 1) (UInt32.ofNat nodes.length)
    pure { splice with nodes, nodeMap }

/-- One turn of the loop of `BuildFusedNodeMap` over the sources. -/
def spliceSource (sources : List FusedSource) (bindings : FusedBindingMap) (index : Nat)
    (splice : Splice) : Checked String Splice := do
  let source ← fetch sources index
  let count := source.parsed.nodes.length
  let nodeMap := List.replicate (count + 1) 0 ++ splice.nodeMap.drop (count + 1)
  forRange count (spliceNode sources bindings index source) { splice with nodeMap }

/-- `BuildFusedNodeMap`. -/
def buildFusedNodeMap (sources : List FusedSource) (bindings : FusedBindingMap) (nodeCount : Nat) :
    Checked String (List ParsedNode) := do
  let splice ← forRange sources.length (spliceSource sources bindings) {}
  require (splice.nodes.length = nodeCount) kNodeCountInvalid
  pure splice.nodes

/-! ### Programs -/

/-- `FusedIrName`. -/
def fusedIrName (sources : List FusedSource) : List UInt8 :=
  "fused.".toUTF8.toList ++ ".".toUTF8.toList.intercalate (sources.map (·.parsed.name))

/-- `BuildFusedParsed`. -/
def buildFusedParsed (sources : List FusedSource) (scalar : ComputeScalar) (domain : ComputeDomain)
    (bindingCount nodeCount : Nat) : Checked String ParsedIR := do
  let bindings ← buildFusedBindingMap sources
  require (bindings.bindings.length = bindingCount ∧
    bindings.bindings.length ≤ kMaxComputeBindingCount) "compute_ir_binding_count_invalid"
  let nodes ← buildFusedNodeMap sources bindings nodeCount
  require (nodes ≠ [] ∧ nodes.length ≤ kMaxComputeNodeCount) kNodeCountInvalid
  let last ← fetch sources (sources.length - 1)
  pure { name := fusedIrName sources, scalarMode := domainModeFor scalar domain,
         fixedFormat := last.parsed.fixedFormat, bindings := bindings.bindings, nodes }

/-- `BuildFusedIR`. -/
def buildFusedIR (parsed : ParsedIR) (scalar : ComputeScalar) (domain : ComputeDomain) :
    ComputeIR :=
  let canonicalBytes := buildFusedCanonicalBytes parsed
  let hash := hashComputeIrCanonicalBytes canonicalBytes
  { scalar, domain, fixedFormat := parsed.fixedFormat, opHashHi := hash.hi, opHashLo := hash.lo,
    canonicalBytes, ok := true }

/-- `ComputeFusedMapChainIR`, with the program that was serialized and without its metadata. -/
structure FusedMapChain where
  ir : ComputeIR
  parsed : ParsedIR
  fusion : FusionPlan
  deriving DecidableEq, Repr

/-- The part of the builder behind the sources. -/
def assembleFused (graph : Graph) (api : ComputeApi) (fusion : FusionPlan)
    (sources : List FusedSource) : Checked String FusedMapChain := do
  let bindingTotal := bindingOffset sources sources.length
  let nodeTotal := (sources.map fun source => source.parsed.nodes.length).sum
  let removed := 2 * (sources.length - 1)
  require (removed < bindingTotal ∧ removed < nodeTotal) "compute_fusion_dependency_conflict"
  require (bindingTotal - removed ≤ kMaxComputeBindingCount ∧
    nodeTotal - removed ≤ kMaxComputeNodeCount) "compute_fusion_capacity_boundary"
  let parsed ← buildFusedParsed sources graph.scalar graph.domain (bindingTotal - removed)
    (nodeTotal - removed)
  let ir := buildFusedIR parsed graph.scalar graph.domain
  admitGeneratedComputeInput ir api parsed
  checkMetadata ir parsed
  pure { ir, parsed, fusion }

/-- `BuildFusedComputeMapChainIR`, on the programs of a chain with their reasons. -/
def buildFusedComputeMapChainIR (chain : List (ComputeIR × String)) (graph : Graph)
    (policy : List FusionNodePolicy) (api : ComputeApi) : Checked String FusedMapChain := do
  let fusion ← planFusion graph policy
  require (computeApiValid api) "compute_api_unsupported"
  require (2 ≤ chain.length ∧ graph.nodes.length = chain.length ∧ fusion.fusedNodeCount = 1 ∧
    fusion.rejectedEdgeCount = 0 ∧ computeScalarValid graph.scalar)
    "compute_fusion_dependency_conflict"
  let sources ← admitSources chain graph policy api
  assembleFused graph api fusion sources

end RunD
