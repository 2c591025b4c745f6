/-
The validator of parsed compute programs, `ValidateLowerableIR`.

It runs after the parser.  It checks the shapes and the domains of the
bindings, resolves the domain of every node by sweeping over the nodes in both
directions, checks the two special write modes, and then goes over the nodes
once more: the operation must belong to its domain, the format must be the one
its operands lead to, and every operand must name an earlier node with a
value.  Its functions index the nodes by operands that the parser has checked,
so an access outside them is an outcome of the model.
-/
import RunD.IrParse

namespace RunD

/-- A part of the validator; it leaves early with the reason of the rejection. -/
abbrev Validating := Checked String

variable {ε : Type}

/-- `parsed.nodes[ref - 1u]`. -/
def nodeAt (parsed : ParsedIR) (ref : UInt32) : Checked ε ParsedNode :=
  fetch parsed.nodes (ref - 1).toNat

/-- `ref != 0u && ref <= parsed.nodes.size()`. -/
def refInside (parsed : ParsedIR) (ref : UInt32) : Bool :=
  ref != 0 && decide (ref.toNat ≤ parsed.nodes.length)

/-- `parsed.scalar_mode == ScalarModeFor(scalar)`. -/
def ParsedIR.fixedMode (parsed : ParsedIR) (scalar : ComputeScalar) : Bool :=
  parsed.scalarMode == scalarModeFor scalar

/-! ### Bindings -/

def bindingWidthShapeValid (kind : UInt8) (elementBytes : UInt32) (scalar : ComputeScalar) : Bool :=
  elementBytes == scalarBytes scalar ||
    (kind == kWriteBindingKind &&
      ((scalar == .lane64 && elementBytes == 4) || (scalar == .lane32 && elementBytes == 8)))

def bindingDomainForShape (binding : ParsedBinding) : ComputeDomain :=
  if binding.elementBytes = 4 then domainForMode .lane32 binding.numericMode
  else if binding.elementBytes = 8 then domainForMode .lane64 binding.numericMode
  else .unknown

/-- The binding holds the indices of some indexed read and is read in no other way. -/
def readAtIndexBinding (parsed : ParsedIR) (binding : UInt32) : Bool :=
  let read (node : ParsedNode) : Bool :=
    (node.op == .read || node.op == .readUniform || node.op == .readAt) && node.aux == binding
  let indexed (node : ParsedNode) : Bool := node.op == .readAt && node.lhs == binding
  !parsed.nodes.any read && parsed.nodes.any indexed

/-- `op == IrOp::Write && node.aux == binding`. -/
def writesBinding (binding : UInt32) (node : ParsedNode) : Bool :=
  node.op == .write && node.aux == binding

def boundaryMaskWriteBinding (parsed : ParsedIR) (binding : UInt32) : Bool :=
  let writes := parsed.nodes.filter (writesBinding binding)
  !writes.isEmpty && writes.all fun node => node.rhs == kWriteBoundaryMask

/-! ### Canonical masks -/

def canonicalMaskConstant (parsed : ParsedIR) (nodeRef expectedLowBits : UInt32) :
    Checked ε Bool :=
  if refInside parsed nodeRef then do
    let node ← nodeAt parsed nodeRef
    pure (node.op == .constant && node.lhs == expectedLowBits && node.rhs == 0 && node.aux == 0)
  else pure false

/-- The select of a mask: one where its predicate holds, zero elsewhere. -/
def canonicalMaskSelect (parsed : ParsedIR) (source : ParsedNode) (fixedMode : Bool) :
    Checked Bool Bool := do
  require (source.op = .select) false
  let one ← canonicalMaskConstant parsed source.rhs 1
  require (one = true) false
  let zero ← canonicalMaskConstant parsed source.aux 0
  require (zero = true) false
  if fixedMode then
    let oneNode ← nodeAt parsed source.rhs
    let zeroNode ← nodeAt parsed source.aux
    pure (oneNode.fixedFormat == source.fixedFormat && zeroNode.fixedFormat == source.fixedFormat)
  else pure true

def canonicalMaskSource (parsed : ParsedIR) (sourceRef : UInt32) (fixedMode : Bool) :
    Checked ε Bool :=
  call do
    require (refInside parsed sourceRef) false
    let source ← nodeAt parsed sourceRef
    if fixedMode then
      require (source.op = .quantize ∧ refInside parsed source.lhs) false
      let selected ← nodeAt parsed source.lhs
      require (selected.fixedFormat = source.fixedFormat) false
      canonicalMaskSelect parsed selected fixedMode
    else canonicalMaskSelect parsed source fixedMode

def canonicalUnsignedMaskWriteBinding (parsed : ParsedIR) (binding : UInt32) : Checked ε Bool :=
  call do
    let writes := parsed.nodes.filter (writesBinding binding)
    forEach writes (fun node _ => do
      require (node.rhs = kWriteValue) false
      let mask ← canonicalMaskSource parsed node.lhs true
      require (mask = true) false) ()
    pure (!writes.isEmpty)

/-- A binding of a program in another domain than its own. -/
def bindingDomainMatches (parsed : ParsedIR) (scalar : ComputeScalar) (index : UInt32)
    (binding : ParsedBinding) : Checked ε Bool :=
  if bindingDomainForShape binding = .unknown then pure false
  else if readAtIndexBinding parsed index then pure true
  else if parsed.fixedMode scalar = false then
    pure (bindingDomainForShape binding != .fixed ||
      (binding.kind == kWriteBindingKind && boundaryMaskWriteBinding parsed index))
  else if bindingDomainForShape binding = .fixed then pure true
  else if binding.kind ≠ kWriteBindingKind ∨
      unsignedDomain (bindingDomainForShape binding) = false then pure false
  else canonicalUnsignedMaskWriteBinding parsed index

/-- `for (index < bindings.size())` with the binding of the index. -/
def forBindings (parsed : ParsedIR) (check : UInt32 → ParsedBinding → Checked ε Unit) :
    Checked ε Unit :=
  forRange parsed.bindings.length (fun index _ => do
    let binding ← fetch parsed.bindings index
    check (UInt32.ofNat index) binding) ()

def bindingDomainsMatchGraph (parsed : ParsedIR) (scalar : ComputeScalar) : Checked ε Bool :=
  call do
    forBindings parsed fun index binding => do
      let matched ← bindingDomainMatches parsed scalar index binding
      require (matched = true) false
    pure true

/-- The mode a binding of another width than the lane must have. -/
def widthChangingMode (binding : ParsedBinding) : UInt8 :=
  if binding.elementBytes = 4 then domainModeFor .lane32 .u32 else domainModeFor .lane64 .u64

/-- The indices of the bindings whose width is not the one of the lane. -/
def widthChangingBindings (parsed : ParsedIR) (scalar : ComputeScalar) : List Nat :=
  (List.range parsed.bindings.length).filter fun index =>
    parsed.bindings[index]?.any fun binding =>
      binding.elementBytes != scalarBytes scalar && !readAtIndexBinding parsed (UInt32.ofNat index)

def widthChangingWriteIsCanonicalMask (parsed : ParsedIR) (scalar : ComputeScalar) :
    Checked ε Bool :=
  call do
    forBindings parsed fun index binding =>
      require (binding.elementBytes = scalarBytes scalar ∨ readAtIndexBinding parsed index ∨
        (binding.kind = kWriteBindingKind ∧ binding.numericMode = widthChangingMode binding)) false
    match widthChangingBindings parsed scalar with
    | [] => pure true
    | [changing] => do
        require ((parsed.bindings.countP fun binding => binding.kind == kWriteBindingKind) = 1) false
        match parsed.nodes.filter fun node => node.op == .write with
        | [write] => do
            require (write.aux = UInt32.ofNat changing ∧ write.rhs = kWriteValue) false
            canonicalMaskSource parsed write.lhs (parsed.fixedMode scalar)
        | _ => pure false
    | _ => pure false

/-! ### The domains of the nodes -/

structure EffectiveNodeDomains where
  values : List ComputeDomain
  valid : Bool := true
  deriving DecidableEq, Repr

def EffectiveNodeDomains.invalidated (domains : EffectiveNodeDomains) : EffectiveNodeDomains :=
  { domains with valid := false }

/-- `reference != 0u && reference <= values.size()`. -/
def EffectiveNodeDomains.inside (domains : EffectiveNodeDomains) (reference : UInt32) : Bool :=
  reference != 0 && decide (reference.toNat ≤ domains.values.length)

/-- `values[reference - 1u]`. -/
def EffectiveNodeDomains.at (domains : EffectiveNodeDomains) (reference : UInt32) :
    Validating ComputeDomain :=
  fetch domains.values (reference - 1).toNat

/-- `binding_domain`. -/
def ParsedIR.bindingDomain (parsed : ParsedIR) (binding : UInt32) : ComputeDomain :=
  match parsed.bindings[binding.toNat]? with
  | none => .unknown
  | some binding => bindingDomainForShape binding

def signedDomainOf (scalar : ComputeScalar) : ComputeDomain :=
  if scalar = .lane64 then .i64 else .i32

def unsignedDomainOf (scalar : ComputeScalar) : ComputeDomain :=
  if scalar = .lane64 then .u64 else .u32

/-- The node takes its domain from a binding, or writes to one. -/
def bindingOp (op : IrOp) : Bool :=
  op == .param || op == .read || op == .readUniform || op == .readAt || op == .write

/-- The domain a node has before the sweeps. -/
def seedDomain (parsed : ParsedIR) (scalar : ComputeScalar) (node : ParsedNode) : ComputeDomain :=
  let signedOnly := irOpDomainValid node.op (signedDomainOf scalar) &&
    !irOpDomainValid node.op (unsignedDomainOf scalar)
  let unsignedOnly := irOpDomainValid node.op (unsignedDomainOf scalar) &&
    !irOpDomainValid node.op (signedDomainOf scalar)
  if bindingOp node.op then
    if node.op = .write ∧ node.rhs = kWriteBoundaryMask then domainForMode scalar parsed.scalarMode
    else parsed.bindingDomain node.aux
  else if signedOnly then signedDomainOf scalar
  else if unsignedOnly then unsignedDomainOf scalar
  else .unknown

/-- A node with a binding must have got an integer domain. -/
def seedValid (parsed : ParsedIR) (scalar : ComputeScalar) (node : ParsedNode) : Bool :=
  !bindingOp node.op || (seedDomain parsed scalar node != .unknown &&
    seedDomain parsed scalar node != .fixed)

/-- `canonical_value_mask_results`: the selects that a value write stores as an unsigned mask. -/
def canonicalValueMaskResults (parsed : ParsedIR) : Validating (List Bool) :=
  forEach parsed.nodes (fun node marks =>
    if node.op = .write ∧ node.rhs = kWriteValue ∧ refInside parsed node.lhs ∧
        unsignedDomain (parsed.bindingDomain node.aux) then do
      let mask ← canonicalMaskSource parsed node.lhs false
      if mask then assign marks node.lhs.toNat true else pure marks
    else pure marks) (List.replicate (parsed.nodes.length + 1) false)

/-- The lambda `assign`. -/
def assignDomain (domains : EffectiveNodeDomains) (reference : UInt32) (expected : ComputeDomain) :
    Validating EffectiveNodeDomains :=
  if domains.inside reference = false then pure domains.invalidated
  else if expected = .unknown then pure domains
  else do
    let current ← domains.at reference
    if current = .unknown then do
      let values ← assign domains.values (reference - 1).toNat expected
      pure { domains with values := values }
    else if current ≠ expected then pure domains.invalidated
    else pure domains

/-- The lambda `constrain_unary`. -/
def constrainUnary (domains : EffectiveNodeDomains) (result source : UInt32) :
    Validating EffectiveNodeDomains :=
  if domains.inside result = false ∨ domains.inside source = false then pure domains.invalidated
  else do
    let resultDomain ← domains.at result
    let sourceDomain ← domains.at source
    let domains ← assignDomain domains source resultDomain
    assignDomain domains result sourceDomain

/-- An operand without a domain takes the one of the result. -/
def fillOperand (domains : EffectiveNodeDomains) (operand : UInt32)
    (current resultDomain : ComputeDomain) :
    Validating (EffectiveNodeDomains × ComputeDomain) :=
  if current = .unknown then do
    let domains ← assignDomain domains operand resultDomain
    let current ← domains.at operand
    pure (domains, current)
  else pure (domains, current)

/-- The lambda `constrain_binary`. -/
def constrainBinary (domains : EffectiveNodeDomains) (result lhs rhs : UInt32) :
    Validating EffectiveNodeDomains :=
  if domains.inside result = false ∨ domains.inside lhs = false ∨ domains.inside rhs = false then
    pure domains.invalidated
  else do
    let left ← domains.at lhs
    let right ← domains.at rhs
    let merged := mergeComputeDomains left right
    if left ≠ .unknown ∧ right ≠ .unknown ∧ merged = .unknown then pure domains.invalidated
    else do
      let domains ← assignDomain domains result merged
      let resultDomain ← domains.at result
      if resultDomain = .unknown then pure domains
      else do
        let (domains, left) ← fillOperand domains lhs left resultDomain
        let (domains, right) ← fillOperand domains rhs right resultDomain
        let merged := mergeComputeDomains left right
        if merged = .unknown ∨ merged ≠ resultDomain then pure domains.invalidated
        else pure domains

/-- A select takes its domain from its two values; the select of a stored mask whose values
have none takes it from the predicate. -/
def constrainSelect (masks : List Bool) (domains : EffectiveNodeDomains) (result : UInt32)
    (node : ParsedNode) : Validating EffectiveNodeDomains := do
  let domains ← constrainBinary domains result node.rhs node.aux
  let resultDomain ← domains.at result
  if resultDomain = .unknown then
    let mask ← fetch masks result.toNat
    if mask then constrainUnary domains result node.lhs else pure domains
  else pure domains

/-- A value write hands the domain of its binding to what it stores, unless that is a mask. -/
def constrainWrite (parsed : ParsedIR) (domains : EffectiveNodeDomains) (node : ParsedNode) :
    Validating EffectiveNodeDomains :=
  if node.rhs = kWriteValue then do
    let mask ← canonicalMaskSource parsed node.lhs false
    if unsignedDomain (parsed.bindingDomain node.aux) && mask then pure domains
    else assignDomain domains node.lhs (parsed.bindingDomain node.aux)
  else pure domains

/-- The body of the lambda `constrain_node`. -/
def constrainOp (parsed : ParsedIR) (masks : List Bool) (domains : EffectiveNodeDomains)
    (result : UInt32) (node : ParsedNode) : Validating EffectiveNodeDomains :=
  match node.op with
  | .param | .read | .readUniform | .readAt | .constant | .index => pure domains
  | .write => constrainWrite parsed domains node
  | .neg | .abs | .absMagnitude | .sign | .predicateNot | .bitNot | .shlConst | .shrLogicalConst
  | .shrArithmeticConst | .negPositiveFixed | .recip | .sqrt | .rsqrt | .sin | .cos | .tan | .exp
  | .log | .quantize => constrainUnary domains result node.lhs
  | .select => constrainSelect masks domains result node
  | .clamp | .clampUnsigned | .mulAddFixed => do
      let domains ← constrainBinary domains result node.lhs node.rhs
      constrainBinary domains result result node.aux
  | _ => constrainBinary domains result node.lhs node.rhs

/-- The lambda `constrain_node`; a sweep stops once the domains are invalid. -/
def constrainNode (parsed : ParsedIR) (masks : List Bool) (index : Nat)
    (domains : EffectiveNodeDomains) : Validating EffectiveNodeDomains :=
  if domains.valid then do
    let node ← fetch parsed.nodes index
    constrainOp parsed masks domains (UInt32.ofNat (index + 1)) node
  else pure domains

/-- `sweep(true)` and then `sweep(false)`. -/
def sweepBoth (parsed : ParsedIR) (masks : List Bool) (domains : EffectiveNodeDomains) :
    Validating EffectiveNodeDomains := do
  let domains ← forRange parsed.nodes.length
    (fun i => constrainNode parsed masks (parsed.nodes.length - 1 - i)) domains
  forRange parsed.nodes.length (constrainNode parsed masks) domains

/-- The nodes still without a domain take the one of the header. -/
def fillHeader (header : ComputeDomain) (domains : EffectiveNodeDomains) : EffectiveNodeDomains :=
  { domains with values := domains.values.map fun value => if value = .unknown then header else value }

def resolveEffectiveNodeDomains (parsed : ParsedIR) (scalar : ComputeScalar) :
    Validating EffectiveNodeDomains :=
  if parsed.fixedMode scalar then
    pure { values := List.replicate parsed.nodes.length .fixed }
  else do
    let masks ← canonicalValueMaskResults parsed
    let seeds : EffectiveNodeDomains :=
      { values := parsed.nodes.map (seedDomain parsed scalar)
        valid := parsed.nodes.all (seedValid parsed scalar) }
    let domains ← sweepBoth parsed masks seeds
    let domains ← sweepBoth parsed masks
      (fillHeader (domainForMode scalar parsed.scalarMode) domains)
    pure { domains with valid := domains.valid && domains.values.all (· != .unknown) }

/-! ### Write modes -/

def integerDomain (domain : ComputeDomain) : Bool :=
  domain == .i32 || domain == .u32 || domain == .i64 || domain == .u64

def nodeFormatAbsent (node : ParsedNode) : Bool := computeFixedFormatAbsent node.fixedFormat

/-- The predicate and the limit of a checked ordinal, by the direction of the conversion. -/
def checkedOrdinalGuard (parsed : ParsedIR) (select predicate : ParsedNode)
    (source target : ComputeDomain) : Checked Bool Bool :=
  if source = .i32 ∧ target = .u32 ∨ source = .i64 ∧ target = .u64 then
    pure (predicate.op == .ge && predicate.rhs == select.aux)
  else if source = .u32 ∧ target = .i32 ∨ source = .u64 ∧ target = .i64 then do
    let expected : UInt64 := if source = .u64 then 0x7fffffffffffffff else 0x7fffffff
    let limit ← nodeAt parsed predicate.rhs
    let bits := limit.lhs.toUInt64 ||| (limit.rhs.toUInt64 <<< 32)
    pure (predicate.op == .leUnsigned && limit.op == .constant && limit.aux == 0 &&
      nodeFormatAbsent limit && bits == expected)
  else pure false

def checkedOrdinalWriteValid (parsed : ParsedIR) (write : ParsedNode) (scalar : ComputeScalar)
    (domains : EffectiveNodeDomains) : Checked ε Bool :=
  call do
    require (write.op = .write ∧ write.rhs = kWriteCheckedOrdinal ∧ refInside parsed write.lhs ∧
      write.aux.toNat < parsed.bindings.length ∧ nodeFormatAbsent write) false
    let select ← nodeAt parsed write.lhs
    require (select.op = .select ∧ nodeFormatAbsent select ∧ refInside parsed select.lhs ∧
      refInside parsed select.rhs) false
    let zero ← canonicalMaskConstant parsed select.aux 0
    require (zero = true) false
    let zeroNode ← nodeAt parsed select.aux
    require (nodeFormatAbsent zeroNode) false
    let writeBinding ← fetch parsed.bindings write.aux.toNat
    let sourceDomain ← fetch domains.values (select.rhs - 1).toNat
    let targetDomain := bindingDomainForShape writeBinding
    require (writeBinding.kind = kWriteBindingKind ∧
      writeBinding.elementBytes = scalarBytes scalar ∧ integerDomain sourceDomain ∧
      integerDomain targetDomain) false
    let predicate ← nodeAt parsed select.lhs
    require (nodeFormatAbsent predicate ∧ predicate.lhs = select.rhs ∧
      refInside parsed predicate.rhs) false
    checkedOrdinalGuard parsed select predicate sourceDomain targetDomain

def boundaryMaskWriteValid (parsed : ParsedIR) (write : ParsedNode) (scalar : ComputeScalar)
    (domains : EffectiveNodeDomains) : Checked ε Bool :=
  call do
    require (write.op = .write ∧ write.rhs = kWriteBoundaryMask ∧ refInside parsed write.lhs ∧
      write.aux.toNat < parsed.bindings.length) false
    let targetBinding ← fetch parsed.bindings write.aux.toNat
    let targetDomain := bindingDomainForShape targetBinding
    require (targetBinding.kind = kWriteBindingKind ∧
      targetBinding.elementBytes = scalarBytes scalar ∧
      (targetDomain = .i32 ∨ targetDomain = .i64 ∨ targetDomain = .fixed)) false
    let select ← nodeAt parsed write.lhs
    require (select.op = .select ∧ nodeFormatAbsent select ∧ refInside parsed select.lhs) false
    let one ← canonicalMaskConstant parsed select.rhs 1
    require (one = true) false
    let zero ← canonicalMaskConstant parsed select.aux 0
    require (zero = true) false
    let oneNode ← nodeAt parsed select.rhs
    let zeroNode ← nodeAt parsed select.aux
    require (nodeFormatAbsent oneNode ∧ nodeFormatAbsent zeroNode) false
    let predicate ← nodeAt parsed select.lhs
    require (predicate.op = .ne ∧ nodeFormatAbsent predicate ∧ refInside parsed predicate.lhs) false
    let limit ← canonicalMaskConstant parsed predicate.rhs 0
    require (limit = true ∧ predicate.rhs = select.aux) false
    let limitNode ← nodeAt parsed predicate.rhs
    require (nodeFormatAbsent limitNode) false
    let sourceDomain ← fetch domains.values (predicate.lhs - 1).toNat
    pure (integerDomain sourceDomain && sourceDomain != targetDomain)

/-- The write mode of one write; a value write must not be a boundary mask in disguise. -/
def validateWriteMode (parsed : ParsedIR) (scalar : ComputeScalar)
    (domains : EffectiveNodeDomains) (node : ParsedNode) : Validating Unit :=
  if node.rhs = kWriteValue then do
    let disguised ← boundaryMaskWriteValid parsed { node with rhs := kWriteBoundaryMask } scalar
      domains
    require (disguised = false) "compute_ir_node_invalid"
  else if node.rhs = kWriteCheckedOrdinal then do
    let ordinal ← checkedOrdinalWriteValid parsed node scalar domains
    require (ordinal = true) "compute_ir_node_invalid"
  else if node.rhs = kWriteBoundaryMask then do
    let mask ← boundaryMaskWriteValid parsed node scalar domains
    require (mask = true) "compute_ir_node_invalid"
  else leave "compute_ir_node_invalid"

def validateWriteModes (parsed : ParsedIR) (scalar : ComputeScalar)
    (domains : EffectiveNodeDomains) : Validating Unit :=
  forEach parsed.nodes (fun node _ =>
    if node.op = .write then validateWriteMode parsed scalar domains node else pure ()) ()

/-! ### Fixed-point formats -/

def sameFixedPolicy (lhs rhs : ComputeFixedFormat) : Bool :=
  lhs.rounding == rhs.rounding && lhs.overflow == rhs.overflow

def sameStoredFormat (lhs rhs : ComputeFixedFormat) : Bool :=
  sameFixedPolicy lhs rhs && lhs.integerBits == rhs.integerBits &&
    lhs.fractionBits == rhs.fractionBits

/-- `lhs` with the less exact of the two approximations. -/
def withApproximationOf (lhs rhs : ComputeFixedFormat) : ComputeFixedFormat :=
  { lhs with
    approximation :=
      if lhs.approximation ≥ rhs.approximation then lhs.approximation else rhs.approximation }

def derivedBinaryFormat (op : IrOp) (lhs rhs : ComputeFixedFormat) : ComputeFixedFormat :=
  let out := withApproximationOf lhs rhs
  match op with
  | .mul =>
      { out with
        integerBits := lhs.integerBits + rhs.integerBits
        fractionBits := lhs.fractionBits + rhs.fractionBits }
  | .add | .sub =>
      { out with
        integerBits := max lhs.integerBits rhs.integerBits + 1
        fractionBits := max lhs.fractionBits rhs.fractionBits }
  | _ =>
      { out with
        integerBits := max lhs.integerBits rhs.integerBits
        fractionBits := max lhs.fractionBits rhs.fractionBits }

/-- The format of a fused multiply and add. -/
def mulAddFormat (lhs rhs addend : ComputeFixedFormat) : ComputeFixedFormat :=
  { lhs with
    integerBits :=
      if lhs.integerBits.toNat + rhs.integerBits.toNat > addend.integerBits.toNat then
        lhs.integerBits + rhs.integerBits
      else addend.integerBits + 1
    fractionBits :=
      UInt8.ofNat (max (lhs.fractionBits.toNat + rhs.fractionBits.toNat) addend.fractionBits.toNat)
    approximation := max (max lhs.approximation rhs.approximation) addend.approximation }

def kFormatInvalid : String := "compute_ir_numeric_policy_invalid"

def kFormatMismatch : String := "compute_ir_numeric_policy_mismatch"

def kQuantizeRequired : String := "compute_ir_quantize_required"

/-- A node of an integer program has no format, but for a mask stored as fixed point. -/
def validateIntegerNodeFormat (parsed : ParsedIR) (node : ParsedNode) (scalar : ComputeScalar) :
    Validating Unit :=
  if node.op = .write ∧ node.rhs = kWriteBoundaryMask ∧
      node.aux.toNat < parsed.bindings.length then do
    let binding ← fetch parsed.bindings node.aux.toNat
    if bindingDomainForShape binding = .fixed then
      require (computeFixedFormatValid scalar node.fixedFormat) kFormatInvalid
    else require (computeFixedFormatAbsent node.fixedFormat) kFormatMismatch
  else require (computeFixedFormatAbsent node.fixedFormat) kFormatMismatch

/-- The lambda `source`. -/
def formatAt (parsed : ParsedIR) (ref : UInt32) : Validating ComputeFixedFormat := do
  let node ← nodeAt parsed ref
  pure node.fixedFormat

/-- The approximation of a quantization must not be better than the one of its source. -/
def approximationDowngrade (source stored : ComputeFixedFormat) : Bool :=
  source.approximation == kDeterministic && stored.approximation != kDeterministic

/-- Two stored formats that differ in their approximation alone, and the format they lead to. -/
def validateStoredPair (parsed : ParsedIR) (node : ParsedNode) (scalar : ComputeScalar)
    (expected : ComputeFixedFormat → ComputeFixedFormat → ComputeFixedFormat) :
    Validating Unit := do
  let lhs ← formatAt parsed node.lhs
  let rhs ← formatAt parsed node.rhs
  require (computeFixedFormatValid scalar lhs ∧ computeFixedFormatValid scalar rhs ∧
    sameStoredFormat lhs rhs ∧ node.fixedFormat = expected lhs rhs) kQuantizeRequired

/-- The cases of `ValidateFixedNodeFormat` in a fixed-point program. -/
def validateFixedOpFormat (parsed : ParsedIR) (node : ParsedNode) (scalar : ComputeScalar) :
    Validating Unit :=
  match node.op with
  | .param | .read | .readUniform | .readAt | .index =>
      require (computeFixedFormatValid scalar node.fixedFormat) kFormatInvalid
  | .constant => require (computeIntermediateFormatValid node.fixedFormat) kFormatInvalid
  | .write => do
      let source ← nodeAt parsed node.lhs
      require (source.op = .quantize ∧ computeFixedFormatValid scalar source.fixedFormat ∧
        node.fixedFormat = source.fixedFormat) kQuantizeRequired
  | .quantize => do
      let source ← formatAt parsed node.lhs
      require (approximationDowngrade source node.fixedFormat = false)
        "compute_ir_approximation_downgrade"
      require (computeIntermediateFormatValid source ∧
        computeFixedFormatValid scalar node.fixedFormat) "compute_ir_quantize_policy_invalid"
  | .neg | .abs | .absMagnitude => do
      let source ← formatAt parsed node.lhs
      require (node.fixedFormat = { source with integerBits := source.integerBits + 1 })
        kFormatMismatch
  | .sign | .predicateNot => do
      let source ← formatAt parsed node.lhs
      require (node.fixedFormat = source) kFormatMismatch
  | .bitNot | .negPositiveFixed | .shlConst | .shrLogicalConst | .shrArithmeticConst => do
      let source ← formatAt parsed node.lhs
      require (computeFixedFormatValid scalar source ∧ node.fixedFormat = source) kQuantizeRequired
  | .recip | .sqrt | .rsqrt | .sin | .cos | .tan | .exp | .log => do
      let source ← formatAt parsed node.lhs
      require (computeFixedFormatValid scalar source ∧
        node.fixedFormat = { source with approximation := kDeterministic }) kQuantizeRequired
  | .select => do
      let rhs ← formatAt parsed node.rhs
      let aux ← formatAt parsed node.aux
      require (sameFixedPolicy rhs aux ∧ node.fixedFormat = derivedBinaryFormat .min rhs aux)
        kFormatMismatch
  | .clamp => do
      let lhs ← formatAt parsed node.lhs
      let rhs ← formatAt parsed node.rhs
      let aux ← formatAt parsed node.aux
      let expected := derivedBinaryFormat .min lhs rhs
      require (sameFixedPolicy lhs rhs ∧
        sameFixedPolicy (derivedBinaryFormat .min expected aux) aux ∧
        node.fixedFormat = derivedBinaryFormat .min expected aux) kFormatMismatch
  | .mulAddFixed => do
      let lhs ← formatAt parsed node.lhs
      let rhs ← formatAt parsed node.rhs
      let addend ← formatAt parsed node.aux
      require (sameFixedPolicy lhs rhs ∧ sameFixedPolicy lhs addend ∧
        node.fixedFormat = mulAddFormat lhs rhs addend) kFormatMismatch
  | .mulWrap | .bitAnd | .bitOr | .bitXor | .addSat | .addSatUnsigned | .subSat | .mulFixed
  | .mulFixedScaled | .mulUnsignedFixed => validateStoredPair parsed node scalar withApproximationOf
  | .divFixed | .atan2 =>
      validateStoredPair parsed node scalar fun lhs _ => { lhs with approximation := kDeterministic }
  | .divSigned | .divUnsigned => leave "compute_ir_node_invalid"
  | _ => do
      let lhs ← formatAt parsed node.lhs
      let rhs ← formatAt parsed node.rhs
      require (sameFixedPolicy lhs rhs ∧ node.fixedFormat = derivedBinaryFormat node.op lhs rhs)
        kFormatMismatch

def validateFixedNodeFormat (parsed : ParsedIR) (node : ParsedNode) (scalar : ComputeScalar) :
    Validating Unit :=
  if parsed.fixedMode scalar then do
    require (computeIntermediateFormatValid node.fixedFormat) kFormatInvalid
    validateFixedOpFormat parsed node scalar
  else validateIntegerNodeFormat parsed node scalar

/-! ### The validator -/

/-- The binding has a width the program can hold and a domain. -/
def validateBindingShape (parsed : ParsedIR) (scalar : ComputeScalar) (index : UInt32)
    (binding : ParsedBinding) : Validating Unit :=
  require ((bindingWidthShapeValid binding.kind binding.elementBytes scalar ∨
      readAtIndexBinding parsed index) ∧ bindingDomainForShape binding ≠ .unknown)
    "compute_ir_binding_scalar_mismatch"

/-- The operand `ref` of the node numbered `currentNode` names an earlier value. -/
def validateOperand (producesValue : List Bool) (currentNode ref : UInt32) : Validating Unit := do
  require (ref ≠ 0 ∧ ref < currentNode ∧ ref.toNat < producesValue.length) "compute_ir_node_invalid"
  let produced ← fetch producesValue ref.toNat
  require (produced = true) "compute_ir_node_invalid"

/-- The body of the loop over the nodes. -/
def validateLowerableNode (parsed : ParsedIR) (scalar : ComputeScalar) (domains : EffectiveNodeDomains)
    (index : Nat) (producesValue : List Bool) : Validating (List Bool) := do
  let node ← fetch parsed.nodes index
  let currentNode := UInt32.ofNat (index + 1)
  let domain ← fetch domains.values index
  require (canonicalIrOpForDomain node.op domain = node.op ∧ irOpDomainValid node.op domain)
    "compute_ir_node_invalid"
  validateFixedNodeFormat parsed node scalar
  let resources := parsedNodeResourcesFor node
  forEach resources.refs (fun ref _ => validateOperand producesValue currentNode ref) ()
  require (¬ (constShiftOp node.op ∧ node.aux.toNat ≥ scalarBitWidth scalar))
    "compute_shift_count_invalid"
  assign producesValue currentNode.toNat resources.producesValue

/-- `ValidateLowerableIR`. -/
def validateLowerableIR (parsed : ParsedIR) (scalar : ComputeScalar) : Validating Unit := do
  require (if parsed.fixedMode scalar then computeFixedFormatValid scalar parsed.fixedFormat
    else computeFixedFormatAbsent parsed.fixedFormat) kFormatMismatch
  forBindings parsed (validateBindingShape parsed scalar)
  let matched ← bindingDomainsMatchGraph parsed scalar
  require (matched = true) "compute_ir_binding_scalar_mismatch"
  let canonical ← widthChangingWriteIsCanonicalMask parsed scalar
  require (canonical = true) "compute_ir_binding_scalar_mismatch"
  let domains ← resolveEffectiveNodeDomains parsed scalar
  require (domains.valid = true) "compute_ir_node_invalid"
  validateWriteModes parsed scalar domains
  let _ ← forRange parsed.nodes.length (validateLowerableNode parsed scalar domains)
    (List.replicate (parsed.nodes.length + 1) false)
  pure ()

end RunD
