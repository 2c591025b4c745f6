/-
The parser and the validator stay inside their arrays, on every byte string,
and what both accept refers only to what is there.

The parser bounds every operand by the number of its node (`WellReferenced`).
The validator indexes the nodes by these operands, and by operands that it
bounds itself before it looks at a mask, so it stays inside as well; its last
loop adds that an operand names a node with a value.
-/
import RunD.IrRoundTrip

namespace RunD

open Reading

/-! ### Operands -/

/-- The operands of a node that name nodes. -/
def valueOperands (node : ParsedNode) : List UInt32 :=
  match node.op with
  | .param | .read | .readUniform | .readAt | .constant | .index => []
  | .write | .neg | .abs | .absMagnitude | .sign | .predicateNot | .bitNot | .shlConst
  | .shrLogicalConst | .shrArithmeticConst | .negPositiveFixed | .recip | .sqrt | .rsqrt | .sin
  | .cos | .tan | .exp | .log | .quantize => [node.lhs]
  | .add | .sub | .mul | .mulWrap | .min | .max | .eq | .lt | .le | .ne | .gt | .ge
  | .predicateAnd | .predicateOr | .bitAnd | .bitOr | .bitXor | .addSat | .addSatUnsigned
  | .subSat | .mulFixed | .mulFixedScaled | .mulUnsignedFixed | .divFixed | .atan2 | .divSigned
  | .divUnsigned | .minUnsigned | .maxUnsigned | .ltUnsigned | .leUnsigned | .gtUnsigned
  | .geUnsigned => [node.lhs, node.rhs]
  | .clamp | .clampUnsigned | .select | .mulAddFixed => [node.lhs, node.rhs, node.aux]

/-- The operands of a node that name bindings, with the kind each of them must have. -/
def bindingOperands (node : ParsedNode) : List (UInt32 × UInt8) :=
  match node.op with
  | .param => [(node.aux, kParamBindingKind)]
  | .read | .readUniform => [(node.aux, kReadBindingKind)]
  | .readAt => [(node.lhs, kReadBindingKind), (node.aux, kReadBindingKind)]
  | .write => [(node.aux, kWriteBindingKind)]
  | _ => []

/-- The validator goes over all of them. -/
theorem parsedNodeResourcesFor_refs (node : ParsedNode) :
    (parsedNodeResourcesFor node).refs = valueOperands node := by
  obtain ⟨op, lhs, rhs, aux, format⟩ := node
  cases op <;> rfl

/-- Only a write has no value. -/
theorem parsedNodeResourcesFor_producesValue (node : ParsedNode) :
    (parsedNodeResourcesFor node).producesValue = (node.op != .write) := by
  obtain ⟨op, lhs, rhs, aux, format⟩ := node
  cases op <;> rfl

/-- Every operand that names a node names an earlier one, and every operand that names a binding
names one of the right kind. -/
structure WellReferenced (parsed : ParsedIR) : Prop where
  count_le : parsed.nodes.length ≤ kMaxComputeNodeCount
  values : ∀ i node, parsed.nodes[i]? = some node →
    ∀ ref ∈ valueOperands node, ref ≠ 0 ∧ ref.toNat ≤ i
  bindings : ∀ node ∈ parsed.nodes, ∀ operand ∈ bindingOperands node,
    bindingIs parsed.bindings operand.1 operand.2 = true

/-- What the checks of the operands of a node say about them. -/
theorem validateParsedNodeOperands_inv {context : NodeContext} {nodes : List ParsedNode}
    {node : ParsedNode} {currentNode : UInt32}
    (h : validateParsedNodeOperands context nodes node currentNode = Except.ok ()) :
    (∀ ref ∈ valueOperands node, validNodeRef ref currentNode = true) ∧
      ∀ operand ∈ bindingOperands node,
        bindingIs context.bindings operand.1 operand.2 = true := by
  obtain ⟨op, lhs, rhs, aux, format⟩ := node
  -- one case per operation; each check names the operands of its shape
  cases op <;>
    simp only [validateParsedNodeOperands, validateWriteOperands, validateReadAtOperands,
      bind_eq_ok, require_eq_ok, exists_const] at h <;>
    simp only [valueOperands, bindingOperands, List.not_mem_nil, IsEmpty.forall_iff, implies_true,
      and_true, true_and, List.mem_cons, or_false, forall_eq_or_imp, forall_eq] <;>
    grind

theorem validNodeRef_toNat {ref : UInt32} {i : Nat} (hi : i < kMaxComputeNodeCount)
    (h : validNodeRef ref (UInt32.ofNat i + 1) = true) : ref ≠ 0 ∧ ref.toNat ≤ i := by
  simp only [validNodeRef, Bool.and_eq_true, bne_iff_ne, decide_eq_true_eq] at h
  refine ⟨h.1, ?_⟩
  have hlt := UInt32.lt_iff_toNat_lt.mp h.2
  have hi' : i < 1024 := hi
  rw [UInt32.toNat_add, UInt32.toNat_ofNat', show (1 : UInt32).toNat = 1 from rfl] at hlt
  omega

/-- The index behind a reference. -/
theorem toNat_sub_one {ref : UInt32} (h : ref ≠ 0) : (ref - 1).toNat = ref.toNat - 1 := by
  have hne : ref.toNat ≠ 0 := fun h0 => h (UInt32.toNat_inj.mp h0)
  have hle : (1 : UInt32) ≤ ref := UInt32.le_iff_toNat_le.mpr (Nat.one_le_iff_ne_zero.mpr hne)
  rw [UInt32.toNat_sub_of_le _ _ hle]
  rfl

theorem ParserAccepted.wellReferenced {ir : ComputeIR} {parsed : ParsedIR}
    (h : ParserAccepted ir parsed) : WellReferenced parsed := by
  have hnode : ∀ i node, parsed.nodes[i]? = some node →
      (∀ ref ∈ valueOperands node, ref ≠ 0 ∧ ref.toNat ≤ i) ∧
        ∀ operand ∈ bindingOperands node,
          bindingIs parsed.bindings operand.1 operand.2 = true := by
    intro i node hn
    have hi : i < parsed.nodes.length := (List.getElem?_eq_some_iff.mp hn).1
    have hvalid := (h.nodes i node hn).valid
    rw [List.length_take, Nat.min_eq_left hi.le, validateParsedNode, bind_eq_ok] at hvalid
    obtain ⟨_, -, hoperands⟩ := hvalid
    obtain ⟨hvalues, hbindings⟩ := validateParsedNodeOperands_inv hoperands
    refine ⟨fun ref href => ?_, hbindings⟩
    exact validNodeRef_toNat (lt_of_lt_of_le hi h.node_count) (hvalues ref href)
  refine ⟨h.node_count, fun i node hn => (hnode i node hn).1, fun node hmem => ?_⟩
  obtain ⟨i, hn⟩ := List.mem_iff_getElem?.mp hmem
  exact (hnode i node hn).2

/-! ### The parser stays inside -/

theorem safelyReads_readFormat : SafelyReads readFormat fun _ => True := by
  refine (safelyReads_readU8 _).bind fun _ _ => ?_
  refine (safelyReads_readU8 _).bind fun _ _ => ?_
  refine (safelyReads_readU8 _).bind fun _ _ => ?_
  refine (safelyReads_readU8 _).bind fun _ _ => ?_
  exact (safelyReads_readU8 _).bind fun _ _ => safelyReads_pure trivial

theorem safelyReads_appendParsedBinding (i : Nat) (bindings : List ParsedBinding) :
    SafelyReads (appendParsedBinding i bindings) fun _ => True := by
  have hread : SafelyReads readParsedBinding fun _ => True := by
    refine (safelyReads_readU8 _).bind fun _ _ => ?_
    refine (safelyReads_readU8 _).bind fun _ _ => ?_
    refine (safelyReads_readBytes _).bind fun _ _ => ?_
    refine (safelyReads_readU32 _).bind fun _ _ => ?_
    refine (safelyReads_readU8 _).bind fun _ _ => ?_
    exact (safelyReads_readBytes _).bind fun _ _ => safelyReads_pure trivial
  have hcheck : ∀ binding, Safely (validateParsedBinding bindings binding) fun _ => True := by
    intro binding
    refine Safely.require_bind fun _ => Safely.require_bind fun _ => Safely.require_bind fun _ => ?_
    exact Safely.require_bind fun _ => (safely_require _ _).mono fun _ _ => trivial
  refine hread.bind fun binding _ => ?_
  exact (safelyReads_lift (hcheck binding)).bind fun _ _ => safelyReads_pure trivial

theorem bindingIs_lt {bindings : List ParsedBinding} {index : UInt32} {kind : UInt8}
    (h : bindingIs bindings index kind = true) : index.toNat < bindings.length := by
  by_contra hge
  rw [bindingIs, List.getElem?_eq_none (Nat.le_of_not_lt hge)] at h
  exact absurd h (by simp)

theorem safely_require_any (p : Prop) [Decidable p] (reason : String) :
    Safely (require p reason) fun _ => True :=
  (safely_require p reason).mono fun _ _ => trivial

theorem safely_validateWriteOperands {context : NodeContext} {nodes : List ParsedNode}
    (node : ParsedNode) (hcount : nodes.length < kMaxComputeNodeCount) :
    Safely (validateWriteOperands context nodes node (UInt32.ofNat nodes.length + 1))
      fun _ => True := by
  refine Safely.require_bind fun hwrite => ?_
  obtain ⟨hne, hle⟩ := validNodeRef_toNat hcount hwrite.1
  have hpos : node.lhs.toNat ≠ 0 := fun h0 => hne (UInt32.toNat_inj.mp h0)
  have hlt : (node.lhs - 1).toNat < nodes.length := by
    rw [toNat_sub_one hne]
    omega
  split
  · refine Safely.require_bind fun _ => Safely.bind (safely_fetch hlt) fun _ _ => ?_
    exact safely_require_any _ _
  · exact safely_pure trivial

theorem safely_validateReadAtOperands {context : NodeContext} (node : ParsedNode) :
    Safely (validateReadAtOperands context node) fun _ => True := by
  refine Safely.require_bind fun hread => ?_
  refine Safely.bind (safely_fetch (bindingIs_lt hread.1)) fun _ _ => ?_
  exact safely_require_any _ _

theorem safely_validateParsedNode {context : NodeContext} {nodes : List ParsedNode}
    (node : ParsedNode) (hcount : nodes.length < kMaxComputeNodeCount) :
    Safely (validateParsedNode context nodes node nodes.length) fun _ => True := by
  refine Safely.require_bind fun _ => ?_
  unfold validateParsedNodeOperands
  split
  -- two operations look at an array, the shifts check twice, all others once
  case h_4 => exact safely_validateReadAtOperands node
  case h_7 => exact safely_validateWriteOperands node hcount
  all_goals
    first
    | exact safely_require_any _ _
    | exact Safely.require_bind fun _ => safely_require_any _ _

theorem safelyReads_readParsedNode : SafelyReads readParsedNode fun _ => True := by
  refine (safelyReads_readU8 _).bind fun op _ => ?_
  refine (safelyReads_readU32 _).bind fun _ _ => ?_
  refine (safelyReads_readU32 _).bind fun _ _ => ?_
  refine (safelyReads_readU32 _).bind fun _ _ => ?_
  refine safelyReads_readFormat.bind fun _ _ => ?_
  rcases IrOp.ofCode op with - | op
  · exact safelyReads_lift (safely_leave _)
  · exact (safelyReads_lift (safely_require_any _ _)).bind fun _ _ => safelyReads_pure trivial

theorem safelyReads_appendParsedNode (context : NodeContext) {i : Nat} {nodes : List ParsedNode}
    (hlen : nodes.length = i) (hcount : i < kMaxComputeNodeCount) :
    SafelyReads (appendParsedNode context i nodes) fun nodes' => nodes'.length = i + 1 := by
  subst hlen
  refine safelyReads_readParsedNode.bind fun node _ => ?_
  refine (safelyReads_lift (safely_validateParsedNode node hcount)).bind fun _ _ => ?_
  exact safelyReads_pure (by simp)

theorem safelyReads_readBindings : SafelyReads readBindings fun _ => True := by
  refine (safelyReads_readU32 _).bind fun count _ => ?_
  refine (safelyReads_lift (safely_require_any _ _)).bind fun _ _ => ?_
  refine (safelyReads_requireRoom _ _ _).bind fun _ _ => ?_
  exact safelyReads_times (fun _ _ => True) trivial fun i bindings _ _ =>
    safelyReads_appendParsedBinding i bindings

theorem safelyReads_readNodes (context : NodeContext) :
    SafelyReads (readNodes context) fun _ => True := by
  refine (safelyReads_readU32 _).bind fun count _ => ?_
  refine (safelyReads_lift (safely_require_any _ _)).bind fun _ _ => ?_
  refine (safelyReads_lift (safely_require _ _)).bind fun _ hcount => ?_
  refine (safelyReads_requireRoom _ _ _).bind fun _ _ => ?_
  refine (safelyReads_times (fun i (nodes : List ParsedNode) => nodes.length = i) rfl
    fun i nodes hi hlen => ?_).mono fun _ _ => trivial
  exact safelyReads_appendParsedNode context hlen (lt_of_lt_of_le hi hcount)

theorem safelyReads_readProgram (ir : ComputeIR) : SafelyReads (readProgram ir) fun _ => True := by
  have hheader : ∀ mode format, Safely (validateHeader ir mode format) fun _ => True :=
    fun mode format => Safely.require_bind fun _ => safely_require_any _ _
  refine (safelyReads_readBytes _).bind fun _ _ => ?_
  refine (safelyReads_lift (safely_require_any _ _)).bind fun _ _ => ?_
  refine (safelyReads_readBytes _).bind fun _ _ => ?_
  refine (safelyReads_readU8 _).bind fun mode _ => ?_
  refine safelyReads_readFormat.bind fun format _ => ?_
  refine (safelyReads_lift (hheader mode format)).bind fun _ _ => ?_
  refine safelyReads_readBindings.bind fun bindings _ => ?_
  exact (safelyReads_readNodes _).bind fun _ _ => safelyReads_pure trivial

/-- The parser never reads past the end of the bytes. -/
theorem safely_parseComputeIR (ir : ComputeIR) (bytes : List UInt8) :
    Safely (parseComputeIR ir bytes) fun parsed => ParserAccepted ir parsed := by
  have hparse : SafelyReads (parseComputeIRUnchecked ir) fun _ => True := by
    refine (safelyReads_readProgram ir).bind fun parsed _ => ?_
    refine (safelyReads_requireDone _).bind fun _ _ => ?_
    exact (safelyReads_lift (safely_require_any _ _)).bind fun _ _ => safelyReads_pure trivial
  have hsafe : Safely (parseComputeIR ir bytes) fun _ => True :=
    Safely.bind (hparse _ (Nat.zero_le _)) fun _ _ => safely_pure trivial
  exact safely_iff.mpr ⟨hsafe.inBounds, fun parsed hrun => (parse_inv hrun).1⟩

/-! ### The validator stays inside -/

section Validator

variable {ε : Type} {parsed : ParsedIR}

theorem safely_nodeAt {ref : UInt32} (h : refInside parsed ref = true) :
    Safely (nodeAt parsed ref : Checked ε ParsedNode) fun node =>
      parsed.nodes[(ref - 1).toNat]? = some node := by
  simp only [refInside, Bool.and_eq_true, bne_iff_ne, decide_eq_true_eq] at h
  have hne : ref.toNat ≠ 0 := fun h0 => h.1 (UInt32.toNat_inj.mp h0)
  refine safely_fetch ?_
  rw [toNat_sub_one h.1]
  omega

theorem safely_canonicalMaskConstant (ref bits : UInt32) :
    Safely (canonicalMaskConstant parsed ref bits : Checked ε Bool) fun result =>
      result = true → refInside parsed ref = true := by
  unfold canonicalMaskConstant
  split
  · next h => exact Safely.bind (safely_nodeAt h) fun _ _ => safely_pure fun _ => h
  · exact safely_pure fun h => absurd h (by decide)

/-- A called function that only has to stay inside. -/
theorem safely_call_any {α : Type} {x : Checked α α} (hx : Safely x fun _ => True) :
    Safely (call x : Checked ε α) fun _ => True :=
  safely_call hx fun _ _ => trivial

theorem safely_canonicalMaskSelect (source : ParsedNode) (fixedMode : Bool) :
    Safely (canonicalMaskSelect parsed source fixedMode) fun _ => True := by
  refine Safely.require_bind fun _ => ?_
  refine Safely.bind (safely_canonicalMaskConstant source.rhs 1) fun _ hone => ?_
  refine Safely.require_bind fun hone' => ?_
  refine Safely.bind (safely_canonicalMaskConstant source.aux 0) fun _ hzero => ?_
  refine Safely.require_bind fun hzero' => ?_
  split
  · refine Safely.bind (safely_nodeAt (hone hone')) fun _ _ => ?_
    exact Safely.bind (safely_nodeAt (hzero hzero')) fun _ _ => safely_pure trivial
  · exact safely_pure trivial

theorem safely_canonicalMaskSource (ref : UInt32) (fixedMode : Bool) :
    Safely (canonicalMaskSource parsed ref fixedMode : Checked ε Bool) fun _ => True := by
  refine safely_call_any (Safely.require_bind fun href => ?_)
  refine Safely.bind (safely_nodeAt href) fun source _ => ?_
  split
  · refine Safely.require_bind fun hquantize => ?_
    refine Safely.bind (safely_nodeAt hquantize.2) fun selected _ => Safely.require_bind fun _ => ?_
    exact safely_canonicalMaskSelect selected _
  · exact safely_canonicalMaskSelect source _

theorem safely_forBindings {check : UInt32 → ParsedBinding → Checked ε Unit}
    (h : ∀ index binding, Safely (check index binding) fun _ => True) :
    Safely (forBindings parsed check) fun _ => True := by
  refine safely_forRange (fun _ _ => True) trivial fun i _ hi _ => ?_
  exact Safely.bind (safely_fetch hi) fun binding _ => h _ binding

theorem safely_canonicalUnsignedMaskWriteBinding (binding : UInt32) :
    Safely (canonicalUnsignedMaskWriteBinding parsed binding : Checked ε Bool) fun _ => True := by
  refine safely_call_any (Safely.bind (Q := fun _ => True) ?_ fun _ _ => safely_pure trivial)
  refine safely_forEach (fun _ _ => True) [] trivial fun _ node _ _ _ => ?_
  refine Safely.require_bind fun _ => ?_
  refine Safely.bind (safely_canonicalMaskSource node.lhs true) fun _ _ => ?_
  exact (safely_require _ _).mono fun _ _ => trivial

theorem safely_bindingDomainsMatchGraph (scalar : ComputeScalar) :
    Safely (bindingDomainsMatchGraph parsed scalar : Checked ε Bool) fun _ => True := by
  have hmatches : ∀ index binding,
      Safely (bindingDomainMatches parsed scalar index binding : Checked Bool Bool)
        fun _ => True := by
    intro index binding
    unfold bindingDomainMatches
    split_ifs
    case neg => exact safely_canonicalUnsignedMaskWriteBinding index
    all_goals exact safely_pure trivial
  refine safely_call_any (Safely.bind (Q := fun _ => True) ?_ fun _ _ => safely_pure trivial)
  refine safely_forBindings fun index binding => Safely.bind (hmatches index binding) fun _ _ => ?_
  exact (safely_require _ _).mono fun _ _ => trivial

theorem safely_widthChangingWriteIsCanonicalMask (scalar : ComputeScalar) :
    Safely (widthChangingWriteIsCanonicalMask parsed scalar : Checked ε Bool) fun _ => True := by
  refine safely_call_any (Safely.bind (Q := fun _ => True) ?_ fun _ _ => ?_)
  · exact safely_forBindings fun _ _ => (safely_require _ _).mono fun _ _ => trivial
  · split
    · exact safely_pure trivial
    · refine Safely.require_bind fun _ => ?_
      split
      · exact Safely.require_bind fun _ => safely_canonicalMaskSource _ _
      · exact safely_pure trivial
    · exact safely_pure trivial

end Validator

/-! ### Resolving the domains stays inside -/

section Domains

variable {parsed : ParsedIR} {n : Nat}

/-- The domains of `n` nodes. -/
def EffectiveNodeDomains.Of (n : Nat) (domains : EffectiveNodeDomains) : Prop :=
  domains.values.length = n

theorem EffectiveNodeDomains.Of.invalidated {domains : EffectiveNodeDomains} (h : domains.Of n) :
    domains.invalidated.Of n := h

theorem safely_at {domains : EffectiveNodeDomains} {ref : UInt32} (h : domains.inside ref = true) :
    Safely (domains.at ref) fun _ => True := by
  simp only [EffectiveNodeDomains.inside, Bool.and_eq_true, bne_iff_ne, decide_eq_true_eq] at h
  have hne : ref.toNat ≠ 0 := fun h0 => h.1 (UInt32.toNat_inj.mp h0)
  refine (safely_fetch ?_).mono fun _ _ => trivial
  rw [toNat_sub_one h.1]
  omega

/-- A reference stays inside as long as the number of nodes stays the same. -/
theorem EffectiveNodeDomains.Of.inside_eq {domains domains' : EffectiveNodeDomains}
    (h : domains.Of n) (h' : domains'.Of n) (ref : UInt32) :
    domains'.inside ref = domains.inside ref := by
  unfold EffectiveNodeDomains.Of at h h'
  rw [EffectiveNodeDomains.inside, EffectiveNodeDomains.inside, h, h']

theorem safely_assignDomain {domains : EffectiveNodeDomains} (h : domains.Of n) (ref : UInt32)
    (expected : ComputeDomain) : Safely (assignDomain domains ref expected) (·.Of n) := by
  unfold assignDomain
  split_ifs with hinside hunknown
  · exact safely_pure h.invalidated
  · exact safely_pure h
  · have hin : domains.inside ref = true := by simpa using hinside
    refine Safely.bind (safely_at hin) fun current _ => ?_
    split_ifs
    · simp only [EffectiveNodeDomains.inside, Bool.and_eq_true, bne_iff_ne,
        decide_eq_true_eq] at hin
      have hne : ref.toNat ≠ 0 := fun h0 => hin.1 (UInt32.toNat_inj.mp h0)
      have hlt : (ref - 1).toNat < domains.values.length := by
        rw [toNat_sub_one hin.1]
        omega
      refine Safely.bind (safely_assign hlt) fun values hvalues => safely_pure ?_
      rw [EffectiveNodeDomains.Of, hvalues, List.length_set]
      exact h
    · exact safely_pure h.invalidated
    · exact safely_pure h

theorem safely_constrainUnary {domains : EffectiveNodeDomains} (h : domains.Of n)
    (result source : UInt32) : Safely (constrainUnary domains result source) (·.Of n) := by
  unfold constrainUnary
  split_ifs with hinside
  · exact safely_pure h.invalidated
  · simp only [not_or, Bool.not_eq_false] at hinside
    refine Safely.bind (safely_at hinside.1) fun resultDomain _ => ?_
    refine Safely.bind (safely_at hinside.2) fun sourceDomain _ => ?_
    refine Safely.bind (safely_assignDomain h source resultDomain) fun domains' h' => ?_
    exact safely_assignDomain h' result sourceDomain

theorem safely_fillOperand {domains : EffectiveNodeDomains} (h : domains.Of n) {operand : UInt32}
    (hin : domains.inside operand = true) (current resultDomain : ComputeDomain) :
    Safely (fillOperand domains operand current resultDomain) (·.1.Of n) := by
  unfold fillOperand
  split_ifs
  · refine Safely.bind (safely_assignDomain h operand resultDomain) fun domains' h' => ?_
    refine Safely.bind (safely_at (h.inside_eq h' operand ▸ hin)) fun _ _ => ?_
    exact safely_pure h'
  · exact safely_pure h

theorem safely_constrainBinary {domains : EffectiveNodeDomains} (h : domains.Of n)
    (result lhs rhs : UInt32) : Safely (constrainBinary domains result lhs rhs) (·.Of n) := by
  unfold constrainBinary
  split_ifs with hinside
  · exact safely_pure h.invalidated
  simp only [not_or, Bool.not_eq_false] at hinside
  obtain ⟨hresult, hlhs, hrhs⟩ := hinside
  refine Safely.bind (safely_at hlhs) fun left _ => ?_
  refine Safely.bind (safely_at hrhs) fun right _ => ?_
  dsimp only
  split_ifs
  · exact safely_pure h.invalidated
  refine Safely.bind (safely_assignDomain h result _) fun d₁ h₁ => ?_
  refine Safely.bind (safely_at (h.inside_eq h₁ result ▸ hresult)) fun resultDomain _ => ?_
  split_ifs
  · exact safely_pure h₁
  refine Safely.bind (safely_fillOperand h₁ (h.inside_eq h₁ lhs ▸ hlhs) left resultDomain)
    fun x h₂ => ?_
  refine Safely.bind (safely_fillOperand h₂ (h.inside_eq h₂ rhs ▸ hrhs) right resultDomain)
    fun y h₃ => ?_
  split_ifs
  · exact safely_pure h₃.invalidated
  · exact safely_pure h₃

variable {masks : List Bool} (hmasks : masks.length = n + 1)
include hmasks

theorem safely_constrainSelect {domains : EffectiveNodeDomains} (h : domains.Of n)
    {result : UInt32} (hresult : domains.inside result = true) (node : ParsedNode) :
    Safely (constrainSelect masks domains result node) (·.Of n) := by
  refine Safely.bind (safely_constrainBinary h result node.rhs node.aux) fun d₁ h₁ => ?_
  refine Safely.bind (safely_at (h.inside_eq h₁ result ▸ hresult)) fun resultDomain _ => ?_
  split_ifs
  · have hlt : result.toNat < masks.length := by
      simp only [EffectiveNodeDomains.inside, Bool.and_eq_true, decide_eq_true_eq] at hresult
      rw [hmasks, ← h]
      exact Nat.lt_succ_of_le hresult.2
    refine Safely.bind (safely_fetch hlt) fun mask _ => ?_
    split_ifs
    · exact safely_constrainUnary h₁ result node.lhs
    · exact safely_pure h₁
  · exact safely_pure h₁

theorem safely_constrainOp {domains : EffectiveNodeDomains} (h : domains.Of n) {result : UInt32}
    (hresult : domains.inside result = true) (node : ParsedNode) :
    Safely (constrainOp parsed masks domains result node) (·.Of n) := by
  have hwrite : Safely (constrainWrite parsed domains node) (·.Of n) := by
    unfold constrainWrite
    split_ifs
    · refine Safely.bind (safely_canonicalMaskSource node.lhs false) fun mask _ => ?_
      split_ifs
      · exact safely_pure h
      · exact safely_assignDomain h _ _
    · exact safely_pure h
  have hternary : Safely (do
      let domains ← constrainBinary domains result node.lhs node.rhs
      constrainBinary domains result result node.aux) (·.Of n) :=
    Safely.bind (safely_constrainBinary h _ _ _) fun _ h₁ => safely_constrainBinary h₁ _ _ _
  unfold constrainOp
  split
  all_goals
    first
    | exact safely_pure h
    | exact hwrite
    | exact safely_constrainUnary h _ _
    | exact safely_constrainSelect hmasks h hresult node
    | exact hternary
    | exact safely_constrainBinary h _ _ _

omit hmasks in
theorem inside_succ {domains : EffectiveNodeDomains} (h : domains.Of n)
    (hn : n ≤ kMaxComputeNodeCount) {index : Nat} (hindex : index < n) :
    domains.inside (UInt32.ofNat (index + 1)) = true := by
  have hn' : n ≤ 1024 := hn
  have hvalue : (UInt32.ofNat (index + 1)).toNat = index + 1 :=
    ofNat_toNat_of_le (show index + 1 ≤ 1024 by omega) (by decide)
  have hlen : domains.values.length = n := h
  rw [EffectiveNodeDomains.inside, hvalue, hlen, Bool.and_eq_true, bne_iff_ne, decide_eq_true_eq]
  refine ⟨fun h0 => ?_, hindex⟩
  rw [h0] at hvalue
  exact absurd hvalue (by simp)

theorem safely_sweepBoth (hlen : parsed.nodes.length = n) (hn : n ≤ kMaxComputeNodeCount)
    {domains : EffectiveNodeDomains} (h : domains.Of n) :
    Safely (sweepBoth parsed masks domains) (·.Of n) := by
  have hnode : ∀ index d, index < n → EffectiveNodeDomains.Of n d →
      Safely (constrainNode parsed masks index d) (·.Of n) := by
    intro index d hindex hd
    unfold constrainNode
    split_ifs
    · refine Safely.bind (safely_fetch (hlen.symm ▸ hindex)) fun node _ => ?_
      exact safely_constrainOp hmasks hd (inside_succ hd hn hindex) node
    · exact safely_pure hd
  refine Safely.bind (Q := (·.Of n)) ?_ fun d₁ h₁ => ?_
  · refine safely_forRange (fun _ d => EffectiveNodeDomains.Of n d) h fun i d hi hd => ?_
    exact hnode _ d (by omega) hd
  · refine safely_forRange (fun _ d => EffectiveNodeDomains.Of n d) h₁ fun i d hi hd => ?_
    exact hnode i d (hlen ▸ hi) hd

omit hmasks in
theorem safely_canonicalValueMaskResults :
    Safely (canonicalValueMaskResults parsed) fun masks =>
      masks.length = parsed.nodes.length + 1 := by
  refine safely_forEach (fun _ (masks : List Bool) => masks.length = parsed.nodes.length + 1) []
    (by simp)
    fun _ node masks _ hlen => ?_
  split_ifs with hwrite
  · have hlt : node.lhs.toNat < masks.length := by
      have hinside := hwrite.2.2.1
      simp only [refInside, Bool.and_eq_true, decide_eq_true_eq] at hinside
      omega
    refine Safely.bind (safely_canonicalMaskSource node.lhs false) fun mask _ => ?_
    split_ifs
    · refine (safely_assign hlt).mono fun masks' hset => ?_
      rw [hset, List.length_set, hlen]
    · exact safely_pure hlen
  · exact safely_pure hlen

omit hmasks in
theorem safely_resolveEffectiveNodeDomains (scalar : ComputeScalar)
    (hn : parsed.nodes.length ≤ kMaxComputeNodeCount) :
    Safely (resolveEffectiveNodeDomains parsed scalar) (·.Of parsed.nodes.length) := by
  unfold resolveEffectiveNodeDomains
  split_ifs
  · exact safely_pure (List.length_replicate ..)
  · refine Safely.bind safely_canonicalValueMaskResults fun masks hmasks => ?_
    refine Safely.bind (safely_sweepBoth hmasks rfl hn (List.length_map ..)) fun d₁ h₁ => ?_
    refine Safely.bind (safely_sweepBoth hmasks rfl hn ?_) fun d₂ h₂ => safely_pure h₂
    rw [EffectiveNodeDomains.Of, fillHeader, List.length_map]
    exact h₁

end Domains

/-! ### Checking the nodes stays inside -/

section Nodes

variable {ε : Type} {parsed : ParsedIR} {domains : EffectiveNodeDomains}
  (hdomains : domains.Of parsed.nodes.length)

include hdomains in
theorem safely_domain {ref : UInt32} (h : refInside parsed ref = true) :
    Safely (fetch domains.values (ref - 1).toNat : Checked ε ComputeDomain) fun _ => True := by
  simp only [refInside, Bool.and_eq_true, bne_iff_ne, decide_eq_true_eq] at h
  have hne : ref.toNat ≠ 0 := fun h0 => h.1 (UInt32.toNat_inj.mp h0)
  have hlen : domains.values.length = parsed.nodes.length := hdomains
  refine (safely_fetch ?_).mono fun _ _ => trivial
  rw [toNat_sub_one h.1]
  omega

theorem safely_checkedOrdinalGuard (select : ParsedNode) {predicate : ParsedNode}
    (source target : ComputeDomain) (h : refInside parsed predicate.rhs = true) :
    Safely (checkedOrdinalGuard parsed select predicate source target) fun _ => True := by
  unfold checkedOrdinalGuard
  split
  · exact safely_pure trivial
  · split
    · exact Safely.bind (safely_nodeAt h) fun _ _ => safely_pure trivial
    · exact safely_pure trivial

include hdomains in
theorem safely_checkedOrdinalWriteValid (write : ParsedNode) (scalar : ComputeScalar) :
    Safely (checkedOrdinalWriteValid parsed write scalar domains : Checked ε Bool)
      fun _ => True := by
  refine safely_call_any (Safely.require_bind fun hwrite => ?_)
  refine Safely.bind (safely_nodeAt hwrite.2.2.1) fun select _ => ?_
  refine Safely.require_bind fun hselect => ?_
  refine Safely.bind (safely_canonicalMaskConstant _ _) fun zero hzero => ?_
  refine Safely.require_bind fun hzero' => ?_
  refine Safely.bind (safely_nodeAt (hzero hzero')) fun _ _ => Safely.require_bind fun _ => ?_
  refine Safely.bind (safely_fetch hwrite.2.2.2.1) fun writeBinding _ => ?_
  refine Safely.bind (safely_domain hdomains hselect.2.2.2) fun sourceDomain _ => ?_
  refine Safely.require_bind fun _ => ?_
  refine Safely.bind (safely_nodeAt hselect.2.2.1) fun predicate _ => ?_
  exact Safely.require_bind fun hpredicate => safely_checkedOrdinalGuard _ _ _ hpredicate.2.2

include hdomains in
theorem safely_boundaryMaskWriteValid (write : ParsedNode) (scalar : ComputeScalar) :
    Safely (boundaryMaskWriteValid parsed write scalar domains : Checked ε Bool)
      fun _ => True := by
  refine safely_call_any (Safely.require_bind fun hwrite => ?_)
  refine Safely.bind (safely_fetch hwrite.2.2.2) fun targetBinding _ => ?_
  refine Safely.require_bind fun _ => ?_
  refine Safely.bind (safely_nodeAt hwrite.2.2.1) fun select _ => ?_
  refine Safely.require_bind fun hselect => ?_
  refine Safely.bind (safely_canonicalMaskConstant _ _) fun one hone => ?_
  refine Safely.require_bind fun hone' => ?_
  refine Safely.bind (safely_canonicalMaskConstant _ _) fun zero hzero => ?_
  refine Safely.require_bind fun hzero' => ?_
  refine Safely.bind (safely_nodeAt (hone hone')) fun _ _ => ?_
  refine Safely.bind (safely_nodeAt (hzero hzero')) fun _ _ => Safely.require_bind fun _ => ?_
  refine Safely.bind (safely_nodeAt hselect.2.2) fun predicate _ => ?_
  refine Safely.require_bind fun hpredicate => ?_
  refine Safely.bind (safely_canonicalMaskConstant _ _) fun limit hlimit => ?_
  refine Safely.require_bind fun hlimit' => ?_
  refine Safely.bind (safely_nodeAt (hlimit hlimit'.1)) fun _ _ => Safely.require_bind fun _ => ?_
  exact Safely.bind (safely_domain hdomains hpredicate.2.2) fun _ _ => safely_pure trivial

include hdomains in
theorem safely_validateWriteModes (scalar : ComputeScalar) :
    Safely (validateWriteModes parsed scalar domains) fun _ => True := by
  have hmode : ∀ node, Safely (validateWriteMode parsed scalar domains node) fun _ => True := by
    intro node
    unfold validateWriteMode
    split_ifs
    · exact Safely.bind (safely_boundaryMaskWriteValid hdomains _ scalar) fun _ _ =>
        safely_require_any _ _
    · exact Safely.bind (safely_checkedOrdinalWriteValid hdomains _ scalar) fun _ _ =>
        safely_require_any _ _
    · exact Safely.bind (safely_boundaryMaskWriteValid hdomains _ scalar) fun _ _ =>
        safely_require_any _ _
    · exact safely_leave _
  refine safely_forEach (fun _ _ => True) [] trivial fun _ node _ _ _ => ?_
  split
  · exact hmode node
  · exact safely_pure trivial

theorem safely_formatAt {ref : UInt32} (h : refInside parsed ref = true) :
    Safely (formatAt parsed ref) fun _ => True :=
  Safely.bind (safely_nodeAt h) fun _ _ => safely_pure trivial

theorem safely_validateStoredPair {node : ParsedNode} {scalar : ComputeScalar}
    {expected : ComputeFixedFormat → ComputeFixedFormat → ComputeFixedFormat}
    (hlhs : refInside parsed node.lhs = true) (hrhs : refInside parsed node.rhs = true) :
    Safely (validateStoredPair parsed node scalar expected) fun _ => True := by
  refine Safely.bind (safely_formatAt hlhs) fun _ _ => ?_
  exact Safely.bind (safely_formatAt hrhs) fun _ _ => safely_require_any _ _

/-- The cases look at no operand but those that name nodes. -/
theorem safely_validateFixedOpFormat {node : ParsedNode} {scalar : ComputeScalar}
    (h : ∀ ref ∈ valueOperands node, refInside parsed ref = true) :
    Safely (validateFixedOpFormat parsed node scalar) fun _ => True := by
  have hunary : ∀ {f : ComputeFixedFormat → Validating Unit} {ref : UInt32},
      refInside parsed ref = true → (∀ format, Safely (f format) fun _ => True) →
        Safely (formatAt parsed ref >>= f) fun _ => True :=
    fun href hf => Safely.bind (safely_formatAt href) fun format _ => hf format
  obtain ⟨op, lhs, rhs, aux, format⟩ := node
  cases op
  all_goals
    simp only [valueOperands, List.mem_cons, List.not_mem_nil, or_false, IsEmpty.forall_iff,
      implies_true, forall_eq_or_imp, forall_eq] at h
    simp only [validateFixedOpFormat]
  case write => exact Safely.bind (safely_nodeAt h) fun _ _ => safely_require_any _ _
  case quantize =>
    exact hunary h fun _ => Safely.require_bind fun _ => safely_require_any _ _
  case select => exact hunary h.2.1 fun _ => hunary h.2.2 fun _ => safely_require_any _ _
  case clampUnsigned => exact hunary h.1 fun _ => hunary h.2.1 fun _ => safely_require_any _ _
  case clamp | mulAddFixed =>
    exact hunary h.1 fun _ => hunary h.2.1 fun _ => hunary h.2.2 fun _ => safely_require_any _ _
  case mulWrap | bitAnd | bitOr | bitXor | addSat | addSatUnsigned | subSat | mulFixed |
      mulFixedScaled | mulUnsignedFixed | divFixed | atan2 =>
    exact safely_validateStoredPair h.1 h.2
  case divSigned | divUnsigned => exact safely_leave _
  case param | read | readUniform | readAt | index | constant => exact safely_require_any _ _
  case neg | abs | absMagnitude | sign | predicateNot | bitNot | negPositiveFixed | shlConst |
      shrLogicalConst | shrArithmeticConst | recip | sqrt | rsqrt | sin | cos | tan | exp | log =>
    exact hunary h fun _ => safely_require_any _ _
  all_goals exact hunary h.1 fun _ => hunary h.2 fun _ => safely_require_any _ _

end Nodes

/-! ### What the parser and the validator accept -/

section Accept

variable {parsed : ParsedIR}

/-- Every operand of the node that names a node names one with a value. -/
def OperandsProduce (parsed : ParsedIR) (node : ParsedNode) : Prop :=
  ∀ ref ∈ valueOperands node, ∃ source, parsed.nodes[ref.toNat - 1]? = some source ∧
    source.op ≠ .write

/-- The marks are of nodes with a value. -/
def MarksProduce (parsed : ParsedIR) (marks : List Bool) : Prop :=
  ∀ k, marks[k]? = some true → ∃ source, parsed.nodes[k - 1]? = some source ∧ source.op ≠ .write

theorem WellReferenced.refInside (h : WellReferenced parsed) {i : Nat} {node : ParsedNode}
    (hn : parsed.nodes[i]? = some node) {ref : UInt32} (href : ref ∈ valueOperands node) :
    refInside parsed ref = true := by
  obtain ⟨hne, hle⟩ := h.values i node hn ref href
  have hi : i < parsed.nodes.length := (List.getElem?_eq_some_iff.mp hn).1
  rw [RunD.refInside, Bool.and_eq_true, bne_iff_ne, decide_eq_true_eq]
  exact ⟨hne, by omega⟩

theorem safely_validateFixedNodeFormat (h : WellReferenced parsed) {i : Nat} {node : ParsedNode}
    (hn : parsed.nodes[i]? = some node) (scalar : ComputeScalar) :
    Safely (validateFixedNodeFormat parsed node scalar) fun _ => True := by
  unfold validateFixedNodeFormat validateIntegerNodeFormat
  split_ifs with hfixed hmask
  · refine Safely.require_bind fun _ => ?_
    exact safely_validateFixedOpFormat fun ref href => h.refInside hn href
  · refine Safely.bind (safely_fetch hmask.2.2) fun binding _ => ?_
    split_ifs
    · exact safely_require_any _ _
    · exact safely_require_any _ _
  · exact safely_require_any _ _

theorem safely_validateOperands {marks : List Bool} (hmarks : MarksProduce parsed marks)
    (currentNode : UInt32) (node : ParsedNode) :
    Safely (forEach (parsedNodeResourcesFor node).refs
      (fun ref _ => validateOperand marks currentNode ref) ()) fun _ =>
        OperandsProduce parsed node := by
  rw [parsedNodeResourcesFor_refs]
  refine safely_forEach (fun (seen : List UInt32) _ => ∀ ref ∈ seen, ∃ source,
    parsed.nodes[ref.toNat - 1]? = some source ∧ source.op ≠ .write) []
    (fun _ h => absurd h (by simp)) fun seen ref _ _ hseen => ?_
  refine Safely.require_bind fun href => ?_
  refine Safely.bind (safely_fetch href.2.2) fun produced hmark => ?_
  refine (safely_require _ _).mono fun _ hproduced => ?_
  intro ref' hmem
  rcases List.mem_append.mp hmem with hold | hnew
  · exact hseen ref' hold
  · rw [List.mem_singleton.mp hnew]
    exact hmarks ref.toNat (hproduced ▸ hmark)

theorem MarksProduce.set {marks : List Bool} (hmarks : MarksProduce parsed marks) {i : Nat}
    {node : ParsedNode} (hn : parsed.nodes[i]? = some node) :
    MarksProduce parsed (marks.set (i + 1) (parsedNodeResourcesFor node).producesValue) := by
  intro k hk
  by_cases hki : k = i + 1
  · subst hki
    refine ⟨node, hn, ?_⟩
    rw [parsedNodeResourcesFor_producesValue, List.getElem?_set_self'] at hk
    obtain ⟨_, -, hop⟩ := Option.map_eq_some_iff.mp hk
    simpa using hop
  · rw [List.getElem?_set_ne (Ne.symm hki)] at hk
    exact hmarks k hk

/-- One turn of the loop over the nodes. -/
theorem safely_validateLowerableNode (h : WellReferenced parsed) {domains : EffectiveNodeDomains}
    (hdomains : domains.Of parsed.nodes.length) (scalar : ComputeScalar) {i : Nat}
    {node : ParsedNode} (hn : parsed.nodes[i]? = some node) {marks : List Bool}
    (hlen : marks.length = parsed.nodes.length + 1) (hmarks : MarksProduce parsed marks) :
    Safely (validateLowerableNode parsed scalar domains i marks) fun marks' =>
      marks'.length = parsed.nodes.length + 1 ∧ MarksProduce parsed marks' ∧
        OperandsProduce parsed node := by
  have hi : i < parsed.nodes.length := (List.getElem?_eq_some_iff.mp hn).1
  have hcurrent : (UInt32.ofNat (i + 1)).toNat = i + 1 :=
    ofNat_toNat_of_le (show i + 1 ≤ kMaxComputeNodeCount from le_trans hi h.count_le) (by decide)
  refine Safely.bind (safely_fetch hi) fun node' hn' => ?_
  obtain rfl : node = node' := by simpa [hn] using hn'
  refine Safely.bind (safely_fetch (show i < domains.values.length from hdomains ▸ hi))
    fun domain _ => ?_
  refine Safely.require_bind fun _ => ?_
  refine Safely.bind (safely_validateFixedNodeFormat h hn scalar) fun _ _ => ?_
  refine Safely.bind (safely_validateOperands hmarks _ node) fun _ hproduce => ?_
  refine Safely.require_bind fun _ => ?_
  rw [hcurrent]
  refine (safely_assign (by omega)).mono fun marks' hset => ?_
  rw [hset, List.length_set]
  exact ⟨hlen, hmarks.set hn, hproduce⟩

/-- The validator stays inside on every program the parser returns, and the operands of what it
accepts have values. -/
theorem safely_validateLowerableIR (h : WellReferenced parsed) (scalar : ComputeScalar) :
    Safely (validateLowerableIR parsed scalar) fun _ =>
      ∀ node ∈ parsed.nodes, OperandsProduce parsed node := by
  refine Safely.require_bind fun _ => ?_
  refine Safely.bind (safely_forBindings fun _ _ => safely_require_any _ _) fun _ _ => ?_
  refine Safely.bind (safely_bindingDomainsMatchGraph scalar) fun _ _ => ?_
  refine Safely.require_bind fun _ => ?_
  refine Safely.bind (safely_widthChangingWriteIsCanonicalMask scalar) fun _ _ => ?_
  refine Safely.require_bind fun _ => ?_
  refine Safely.bind (safely_resolveEffectiveNodeDomains scalar h.count_le)
    fun domains hdomains => ?_
  refine Safely.require_bind fun _ => ?_
  refine Safely.bind (safely_validateWriteModes hdomains scalar) fun _ _ => ?_
  -- the invariant of the loop: the marks so far are right, and the nodes so far have their values
  refine Safely.bind (safely_forRange (fun i (marks : List Bool) =>
    marks.length = parsed.nodes.length + 1 ∧ MarksProduce parsed marks ∧
      ∀ k node, k < i → parsed.nodes[k]? = some node → OperandsProduce parsed node) ?_ ?_)
    fun marks hmarks => ?_
  · refine ⟨List.length_replicate .., fun k hk => ?_, fun k node hk => absurd hk (by omega)⟩
    rw [List.getElem?_replicate] at hk
    split at hk <;> simp at hk
  · rintro i marks hi ⟨hlen, hmarks, hbefore⟩
    obtain ⟨node, hn⟩ : ∃ node, parsed.nodes[i]? = some node := ⟨_, List.getElem?_eq_getElem hi⟩
    refine (safely_validateLowerableNode h hdomains scalar hn hlen hmarks).mono fun marks' h' => ?_
    refine ⟨h'.1, h'.2.1, fun k node' hk hn' => ?_⟩
    rcases Nat.lt_succ_iff_lt_or_eq.mp hk with hlt | rfl
    · exact hbefore k node' hlt hn'
    · obtain rfl : node = node' := by simpa [hn] using hn'
      exact h'.2.2
  · refine safely_pure fun node hmem => ?_
    obtain ⟨k, hk⟩ := List.mem_iff_getElem?.mp hmem
    exact hmarks.2.2 k node (List.getElem?_eq_some_iff.mp hk).1 hk

end Accept

/-- The parser and then the validator, as `AdmitComputeInputWithKey` runs them. -/
def parseAndValidate (ir : ComputeIR) (canonicalBytes : List UInt8) : Checked String ParsedIR := do
  let parsed ← parseComputeIR ir canonicalBytes
  validateLowerableIR parsed ir.scalar
  pure parsed

/-- What a node of an accepted program, with its index, refers to. -/
structure NodeReferences (parsed : ParsedIR) (i : Nat) (node : ParsedNode) : Prop where
  /-- Operands are numbers of earlier nodes with a value; the node itself is number `i + 1`. -/
  values : ∀ ref ∈ valueOperands node, ref ≠ 0 ∧ ref.toNat < i + 1 ∧
    ∃ source, parsed.nodes[ref.toNat - 1]? = some source ∧ source.op ≠ .write
  /-- Binding operands are indices of bindings of the kind the operation requires. -/
  bindings : ∀ operand ∈ bindingOperands node,
    ∃ binding, parsed.bindings[operand.1.toNat]? = some binding ∧ binding.kind = operand.2

theorem bindingIs_iff {bindings : List ParsedBinding} {index : UInt32} {kind : UInt8} :
    bindingIs bindings index kind = true ↔
      ∃ binding, bindings[index.toNat]? = some binding ∧ binding.kind = kind := by
  rw [bindingIs, Option.any_eq_true]
  simp

theorem safely_parseAndValidate (ir : ComputeIR) (bytes : List UInt8) :
    Safely (parseAndValidate ir bytes) fun parsed =>
      parseComputeIR ir bytes = Except.ok parsed ∧
        ∀ i node, parsed.nodes[i]? = some node → NodeReferences parsed i node := by
  refine Safely.bind_run (safely_parseComputeIR ir bytes) fun parsed hparse haccepted => ?_
  have hrefs := haccepted.wellReferenced
  refine Safely.bind (safely_validateLowerableIR hrefs ir.scalar) fun _ hproduce => ?_
  refine safely_pure ⟨hparse, fun i node hn => ⟨fun ref href => ?_, fun operand hoperand => ?_⟩⟩
  · obtain ⟨hne, hle⟩ := hrefs.values i node hn ref href
    exact ⟨hne, by omega, hproduce node (List.mem_of_getElem? hn) ref href⟩
  · exact bindingIs_iff.mp (hrefs.bindings node (List.mem_of_getElem? hn) operand hoperand)

/-- The reader of a parse that succeeds ends behind the last byte. -/
theorem parseComputeIRUnchecked_done {ir : ComputeIR} {bytes : List UInt8} {parsed : ParsedIR}
    (h : parseComputeIR ir bytes = Except.ok parsed) :
    ∃ r, parseComputeIRUnchecked ir { bytes := bytes } = Except.ok (parsed, r) ∧
      r.offset = bytes.length := by
  obtain ⟨⟨parsed', r⟩, hrun, hpure⟩ := bind_eq_ok.mp h
  rw [pure_eq_ok] at hpure
  cases hpure
  refine ⟨r, hrun, ?_⟩
  simp only [parseComputeIRUnchecked, reading_bind, bind_eq_ok] at hrun
  obtain ⟨⟨parsed₁, r₁⟩, hread, ⟨_, r₂⟩, hdone, ⟨_, r₃⟩, hwrites, hpure⟩ := hrun
  rw [reading_pure, Except.ok.injEq, Prod.mk.injEq] at hpure
  obtain ⟨-, rfl⟩ := hpure
  simp only [requireDone, bind_eq_ok, require_eq_ok, pure_eq_ok, Prod.mk.injEq] at hdone
  obtain ⟨_, hend, -, rfl⟩ := hdone
  simp only [lift, bind_eq_ok, pure_eq_ok, Prod.mk.injEq] at hwrites
  obtain ⟨_, -, -, rfl⟩ := hwrites
  obtain ⟨_, hadv, -⟩ := consumes_readProgram ir _ _ _ (Nat.zero_le _) hread
  rw [hend, hadv.bytes_eq]

/-- **The parser and the validator are safe on every byte string**: they return, they never look
outside an array, and a program they accept has been read to the last byte and refers only to
earlier values and to bindings of the right kind. -/
theorem parseAndValidate_safe (ir : ComputeIR) (bytes : List UInt8) :
    parseAndValidate ir bytes ≠ Except.error Stop.outOfBounds ∧
      ∀ parsed, parseAndValidate ir bytes = Except.ok parsed →
        (∀ i node, parsed.nodes[i]? = some node → NodeReferences parsed i node) ∧
          ∃ r, parseComputeIRUnchecked ir { bytes := bytes } = Except.ok (parsed, r) ∧
            r.offset = bytes.length := by
  have hsafe := safely_parseAndValidate ir bytes
  refine ⟨hsafe.inBounds, fun parsed hrun => ?_⟩
  obtain ⟨hparse, hnodes⟩ := hsafe.post hrun
  exact ⟨hnodes, parseComputeIRUnchecked_done hparse⟩

theorem parseAndValidate_safe_storeFive :
    parseAndValidate storeFiveIR (encodeWith [1] storeFive) = Except.ok storeFive ∧
      ∀ i node, storeFive.nodes[i]? = some node → NodeReferences storeFive i node :=
  have h : parseAndValidate storeFiveIR (encodeWith [1] storeFive) = Except.ok storeFive := by
    decide
  ⟨h, ((parseAndValidate_safe _ _).2 _ h).1⟩

end RunD
