/-
A compute program as its lowering sees it, and the two encoders of its bytes.

A parsed program is a header, a list of bindings and a list of nodes.  Nodes
are numbered from one; an operand that names a node is its number, and zero
names none.  `buildFusedCanonicalBytes` is the serializer of the lowering,
`buildCanonicalBytes` the one of the builder of the embedded language.  An
operation is stored as an `IrOp`: the parser stores no other byte.
-/
import RunD.ByteReader
import RunD.ComputeModel

namespace RunD

/-! ### Parsed programs -/

def kParamBindingKind : UInt8 := 1

def kReadBindingKind : UInt8 := 2

def kWriteBindingKind : UInt8 := 3

/-- `BindingKindName` knows the kind. -/
def bindingKindNamed (kind : UInt8) : Bool :=
  kind == kParamBindingKind || kind == kReadBindingKind || kind == kWriteBindingKind

structure ParsedBinding where
  kind : UInt8 := 0
  numericMode : UInt8 := 0
  name : List UInt8 := []
  elementBytes : UInt32 := 0
  floatingPointParam : Bool := false
  valueBytes : List UInt8 := []
  deriving DecidableEq, Repr

structure ParsedNode where
  op : IrOp := .param
  lhs : UInt32 := 0
  rhs : UInt32 := 0
  aux : UInt32 := 0
  fixedFormat : ComputeFixedFormat := {}
  deriving DecidableEq, Repr

structure ParsedIR where
  name : List UInt8 := []
  scalarMode : UInt8 := 0
  fixedFormat : ComputeFixedFormat := {}
  bindings : List ParsedBinding := []
  nodes : List ParsedNode := []
  deriving DecidableEq, Repr

/-- A program as it is handed around: its header and its bytes. -/
structure ComputeIR where
  scalar : ComputeScalar := .lane32
  domain : ComputeDomain := .fixed
  fixedFormat : ComputeFixedFormat := {}
  opHashHi : UInt64 := 0
  opHashLo : UInt64 := 0
  canonicalBytes : List UInt8 := []
  ok : Bool := false
  deriving DecidableEq, Repr

/-! ### Value edges -/

/-- The nodes a node refers to, and whether it produces a value. -/
structure ParsedNodeResources where
  refs : List UInt32 := []
  producesValue : Bool := false
  deriving DecidableEq, Repr

/-- `ParsedNodeResourcesFor`; every operation has its class. -/
def parsedNodeResourcesFor (node : ParsedNode) : ParsedNodeResources :=
  if node.op = .write then { refs := [node.lhs] }
  else if unaryValueOp node.op || constShiftOp node.op then
    { refs := [node.lhs], producesValue := true }
  else if binaryValueOp node.op then { refs := [node.lhs, node.rhs], producesValue := true }
  else if ternaryValueOp node.op then
    { refs := [node.lhs, node.rhs, node.aux], producesValue := true }
  else { producesValue := true }

/-! ### The serializer of the lowering -/

/-- The five bytes of a format. -/
def encodeFormat (format : ComputeFixedFormat) : List UInt8 :=
  [format.integerBits, format.fractionBits, format.rounding, format.overflow,
    format.approximation]

/-- A binding with `flag` as its floating-point byte. -/
def encodeBinding (flag : UInt8) (binding : ParsedBinding) : List UInt8 :=
  [binding.kind, binding.numericMode] ++ encodeBytes binding.name ++
    encodeU32 binding.elementBytes ++ [flag] ++ encodeBytes binding.valueBytes

/-- `floating_point_param ? 1 : 0`. -/
def floatingPointByte (binding : ParsedBinding) : UInt8 :=
  if binding.floatingPointParam then 1 else 0

def appendSerializedBinding (binding : ParsedBinding) : List UInt8 :=
  encodeBinding (floatingPointByte binding) binding

def appendSerializedNode (node : ParsedNode) : List UInt8 :=
  [node.op.code] ++ encodeU32 node.lhs ++ encodeU32 node.rhs ++ encodeU32 node.aux ++
    encodeFormat node.fixedFormat

/-- `"rund.compute.ir"`. -/
def kSchema : List UInt8 :=
  [0x72, 0x75, 0x6e, 0x64, 0x2e, 0x63, 0x6f, 0x6d, 0x70, 0x75, 0x74, 0x65, 0x2e, 0x69, 0x72]

/-- The bytes before the bindings. -/
def encodeHeader (name : List UInt8) (mode : UInt8) (format : ComputeFixedFormat) : List UInt8 :=
  encodeBytes kSchema ++ encodeBytes name ++ [mode] ++ encodeFormat format

def buildFusedCanonicalBytes (parsed : ParsedIR) : List UInt8 :=
  encodeHeader parsed.name parsed.scalarMode parsed.fixedFormat ++
    encodeU32 (UInt32.ofNat parsed.bindings.length) ++
    parsed.bindings.flatMap appendSerializedBinding ++
    encodeU32 (UInt32.ofNat parsed.nodes.length) ++ parsed.nodes.flatMap appendSerializedNode

/-! ### The serializer of the builder -/

/-- `BindingKind`. -/
inductive BindingKind where
  | param
  | read
  | write
  deriving DecidableEq, Repr

def BindingKind.code : BindingKind → UInt8
  | .param => 1
  | .read => 2
  | .write => 3

/-- `ScalarMode`. -/
inductive ScalarMode where
  | unspecified
  | fixedLane32
  | fixedLane64
  | i32
  | u32
  | i64
  | u64
  deriving DecidableEq, Repr

def ScalarMode.code : ScalarMode → UInt8
  | .unspecified => 0
  | .fixedLane32 => 1
  | .fixedLane64 => 2
  | .i32 => 3
  | .u32 => 4
  | .i64 => 5
  | .u64 => 6

/-- What the builder knows of a binding, without the storage behind it. -/
structure BindingRuntime where
  kind : BindingKind := .param
  numericMode : ScalarMode := .unspecified
  name : List UInt8 := []
  elementBytes : UInt32 := 0
  valueBytes : List UInt8 := []
  floatingPointParam : Bool := false
  deriving DecidableEq, Repr

/-- `ComputeIrNode` has the fields of a parsed node. -/
abbrev ComputeIrNode := ParsedNode

/-- `for (index < 4) push_back((value >> (index * 8)) & 0xff)`. -/
def appendU32 (value : UInt32) : List UInt8 :=
  (List.range 4).map fun index => ((value >>> (UInt32.ofNat index * 8)) &&& 0xff).toUInt8

def appendBytes (value : List UInt8) : List UInt8 := appendU32 (UInt32.ofNat value.length) ++ value

def appendBindings (bindings : List BindingRuntime) : List UInt8 :=
  appendU32 (UInt32.ofNat bindings.length) ++
    bindings.flatMap fun binding =>
      [binding.kind.code] ++ [binding.numericMode.code] ++ appendBytes binding.name ++
        appendU32 binding.elementBytes ++ [if binding.floatingPointParam then 1 else 0] ++
        appendU32 (UInt32.ofNat binding.valueBytes.length) ++ binding.valueBytes

/-- A node without a format takes the one of the graph. -/
def nodeFormat (graphFormat : ComputeFixedFormat) (node : ComputeIrNode) : ComputeFixedFormat :=
  if computeFixedFormatAbsent node.fixedFormat then graphFormat else node.fixedFormat

def appendNodes (nodes : List ComputeIrNode) (graphFormat : ComputeFixedFormat) : List UInt8 :=
  appendU32 (UInt32.ofNat nodes.length) ++
    nodes.flatMap fun node =>
      [node.op.code] ++ appendU32 node.lhs ++ appendU32 node.rhs ++ appendU32 node.aux ++
        [(nodeFormat graphFormat node).integerBits] ++ [(nodeFormat graphFormat node).fractionBits] ++
        [(nodeFormat graphFormat node).rounding] ++ [(nodeFormat graphFormat node).overflow] ++
        [(nodeFormat graphFormat node).approximation]

/-- The bytes `BuildCanonical` writes.  It is given a name as well and writes an empty one. -/
def buildCanonicalBytes (_name : List UInt8) (mode : ScalarMode) (format : ComputeFixedFormat)
    (bindings : List BindingRuntime) (nodes : List ComputeIrNode) : List UInt8 :=
  appendBytes kSchema ++ appendBytes [] ++ [mode.code] ++ [format.integerBits] ++
    [format.fractionBits] ++ [format.rounding] ++ [format.overflow] ++ [format.approximation] ++
    appendBindings bindings ++ appendNodes nodes format

/-! ### The two serializers agree -/

def BindingRuntime.parsed (binding : BindingRuntime) : ParsedBinding :=
  { kind := binding.kind.code
    numericMode := binding.numericMode.code
    name := binding.name
    elementBytes := binding.elementBytes
    floatingPointParam := binding.floatingPointParam
    valueBytes := binding.valueBytes }

/-- A node with its format written out. -/
def resolveFormat (graphFormat : ComputeFixedFormat) (node : ComputeIrNode) : ParsedNode :=
  { node with fixedFormat := nodeFormat graphFormat node }

/-- The program a builder has put together. -/
def builtIR (name : List UInt8) (mode : ScalarMode) (format : ComputeFixedFormat)
    (bindings : List BindingRuntime) (nodes : List ComputeIrNode) : ParsedIR :=
  { name := name
    scalarMode := mode.code
    fixedFormat := format
    bindings := bindings.map BindingRuntime.parsed
    nodes := nodes }

theorem appendU32_eq (value : UInt32) : appendU32 value = encodeU32 value := by
  have hzero : value >>> (UInt32.ofNat 0 * 8) = value := by simp
  show [_, _, _, _] = _
  dsimp only
  rw [hzero]
  rfl

theorem appendBytes_eq (value : List UInt8) : appendBytes value = encodeBytes value := by
  rw [appendBytes, appendU32_eq, encodeBytes]

/-- The builder writes what the serializer of the lowering writes for the program without its
name and with the formats of its nodes written out. -/
theorem buildCanonicalBytes_eq (name : List UInt8) (mode : ScalarMode)
    (format : ComputeFixedFormat) (bindings : List BindingRuntime) (nodes : List ComputeIrNode) :
    buildCanonicalBytes name mode format bindings nodes =
      buildFusedCanonicalBytes
        (builtIR [] mode format bindings (nodes.map (resolveFormat format))) := by
  have hbindings : appendBindings bindings =
      encodeU32 (UInt32.ofNat (bindings.map BindingRuntime.parsed).length) ++
        (bindings.map BindingRuntime.parsed).flatMap appendSerializedBinding := by
    rw [appendBindings, appendU32_eq, List.length_map, List.flatMap_map]
    congr 2
    funext binding
    simp only [appendBytes_eq, appendU32_eq, appendSerializedBinding, encodeBinding,
      BindingRuntime.parsed, encodeBytes, List.append_assoc, List.cons_append, List.nil_append]
    rfl
  have hnodes : appendNodes nodes format =
      encodeU32 (UInt32.ofNat (nodes.map (resolveFormat format)).length) ++
        (nodes.map (resolveFormat format)).flatMap appendSerializedNode := by
    simp only [appendNodes, appendU32_eq, List.length_map, List.flatMap_map, appendSerializedNode,
      resolveFormat, encodeFormat, List.append_assoc, List.cons_append, List.nil_append]
  rw [buildCanonicalBytes, hbindings, hnodes, appendBytes_eq, appendBytes_eq,
    buildFusedCanonicalBytes, builtIR, encodeHeader]
  simp [encodeFormat]

end RunD
