/-
When the domains of the nodes have settled.

`ResolveEffectiveNodeDomains` sweeps over the nodes four times, in a reverse
and a forward pass before the remaining nodes take the domain of the header and
in a reverse and a forward pass after it.  As soon as every node has a domain a
sweep can only check: it changes no domain, and it finds a conflict exactly
where a node is not satisfied by the domains of its operands.  So the second
pair of sweeps checks all there is to check, when the header has filled every
gap.  The header of a program whose mode is of the other lane width fills
nothing; then the last forward sweep can still be handing out domains behind
the node that asks for something else.
-/
import RunD.IrSafety

namespace RunD

variable {parsed : ParsedIR} {masks : List Bool}

/-! ### What a node asks for -/

/-- The domain of the node behind a reference. -/
def domainOf (values : List ComputeDomain) (ref : UInt32) : ComputeDomain :=
  values.getD (ref - 1).toNat .unknown

/-- The write stores the select of a mask to an unsigned binding. -/
def storesMask (parsed : ParsedIR) (node : ParsedNode) : Bool :=
  match (canonicalMaskSource parsed node.lhs false : Validating Bool) with
  | Except.ok mask => unsignedDomain (parsed.bindingDomain node.aux) && mask
  | Except.error _ => false

/-- The operands are of one domain with the result, by the constraint of the operation. -/
def nodeSatisfied (parsed : ParsedIR) (values : List ComputeDomain) (result : UInt32)
    (node : ParsedNode) : Bool :=
  let unary (source : UInt32) : Bool := domainOf values result == domainOf values source
  let binary (lhs rhs : UInt32) : Bool :=
    mergeComputeDomains (domainOf values lhs) (domainOf values rhs) == domainOf values result
  match node.op with
  | .param | .read | .readUniform | .readAt | .constant | .index => true
  | .write =>
      node.rhs != kWriteValue || storesMask parsed node ||
        domainOf values node.lhs == parsed.bindingDomain node.aux
  | .neg | .abs | .absMagnitude | .sign | .predicateNot | .bitNot | .shlConst | .shrLogicalConst
  | .shrArithmeticConst | .negPositiveFixed | .recip | .sqrt | .rsqrt | .sin | .cos | .tan | .exp
  | .log | .quantize => unary node.lhs
  | .select => binary node.rhs node.aux
  | .clamp | .clampUnsigned | .mulAddFixed => binary node.lhs node.rhs && binary result node.aux
  | _ => binary node.lhs node.rhs

/-- Every node is satisfied by the domains. -/
def AllSatisfied (parsed : ParsedIR) (values : List ComputeDomain) : Prop :=
  ∀ i node, parsed.nodes[i]? = some node →
    nodeSatisfied parsed values (UInt32.ofNat (i + 1)) node = true

/-! ### Constraints on known domains -/

/-- The outcome of a check that changes no domain. -/
def EffectiveNodeDomains.checked (domains : EffectiveNodeDomains) (passed : Bool) :
    EffectiveNodeDomains :=
  { domains with valid := domains.valid && passed }

@[simp] theorem EffectiveNodeDomains.checked_values (domains : EffectiveNodeDomains)
    (passed : Bool) : (domains.checked passed).values = domains.values := rfl

@[simp] theorem EffectiveNodeDomains.checked_true (domains : EffectiveNodeDomains) :
    domains.checked true = domains := by
  simp [EffectiveNodeDomains.checked]

@[simp] theorem EffectiveNodeDomains.checked_false (domains : EffectiveNodeDomains) :
    domains.checked false = domains.invalidated := by
  simp [EffectiveNodeDomains.checked, EffectiveNodeDomains.invalidated]

@[simp] theorem EffectiveNodeDomains.checked_checked (domains : EffectiveNodeDomains)
    (first second : Bool) :
    (domains.checked first).checked second = domains.checked (first && second) := by
  simp [EffectiveNodeDomains.checked, Bool.and_assoc]

@[simp] theorem EffectiveNodeDomains.checked_inside (domains : EffectiveNodeDomains)
    (passed : Bool) (ref : UInt32) : (domains.checked passed).inside ref = domains.inside ref := rfl

/-- Every node has a domain. -/
def EffectiveNodeDomains.Known (domains : EffectiveNodeDomains) : Prop :=
  ∀ domain ∈ domains.values, domain ≠ .unknown

theorem EffectiveNodeDomains.Known.checked {domains : EffectiveNodeDomains}
    (h : domains.Known) (passed : Bool) : (domains.checked passed).Known := h

/-- A reference that stays inside finds the domain of its node. -/
theorem at_eq {domains : EffectiveNodeDomains} {ref : UInt32} (h : domains.inside ref = true) :
    domains.at ref = Except.ok (domainOf domains.values ref) := by
  simp only [EffectiveNodeDomains.inside, Bool.and_eq_true, bne_iff_ne, decide_eq_true_eq] at h
  have hne : ref.toNat ≠ 0 := fun h0 => h.1 (UInt32.toNat_inj.mp h0)
  have hlt : (ref - 1).toNat < domains.values.length := by
    rw [toNat_sub_one h.1]
    omega
  apply fetch_of_lt
  rw [domainOf, List.getD_eq_getElem _ _ hlt]
  exact List.getElem?_eq_getElem hlt

section Known

variable {domains : EffectiveNodeDomains} (hknown : domains.Known)
include hknown

theorem EffectiveNodeDomains.Known.ne_unknown {ref : UInt32} (h : domains.inside ref = true) :
    domainOf domains.values ref ≠ .unknown := by
  simp only [EffectiveNodeDomains.inside, Bool.and_eq_true, bne_iff_ne, decide_eq_true_eq] at h
  have hne : ref.toNat ≠ 0 := fun h0 => h.1 (UInt32.toNat_inj.mp h0)
  have hlt : (ref - 1).toNat < domains.values.length := by
    rw [toNat_sub_one h.1]
    omega
  rw [domainOf, List.getD_eq_getElem _ _ hlt]
  exact hknown _ (List.getElem_mem hlt)

theorem assignDomain_known {ref : UInt32} {expected : ComputeDomain}
    (h : domains.inside ref = true) (hexpected : expected ≠ .unknown) :
    assignDomain domains ref expected =
      Except.ok (domains.checked (domainOf domains.values ref == expected)) := by
  rw [assignDomain, if_neg (by simp [h]), if_neg hexpected, at_eq h, ok_bind,
    if_neg (hknown.ne_unknown h)]
  rcases eq_or_ne (domainOf domains.values ref) expected with heq | hne
  · rw [if_neg (not_not.mpr heq), beq_iff_eq.mpr heq, EffectiveNodeDomains.checked_true]
    rfl
  · rw [if_pos hne, beq_eq_false_iff_ne.mpr hne, EffectiveNodeDomains.checked_false]
    rfl

theorem constrainUnary_known {result source : UInt32} (hresult : domains.inside result = true)
    (hsource : domains.inside source = true) :
    constrainUnary domains result source = Except.ok
      (domains.checked (domainOf domains.values result == domainOf domains.values source)) := by
  rw [constrainUnary, if_neg (by simp [hresult, hsource]), at_eq hresult, ok_bind, at_eq hsource,
    ok_bind, assignDomain_known hknown hsource (hknown.ne_unknown hresult), ok_bind,
    assignDomain_known (hknown.checked _) hresult (hknown.ne_unknown hsource)]
  -- the source is checked against the result and the result against the source
  simp only [EffectiveNodeDomains.checked_checked, EffectiveNodeDomains.checked_values]
  rw [Bool.beq_comm (a := domainOf domains.values source), Bool.and_self]

omit hknown in
theorem fillOperand_known {operand : UInt32} {current resultDomain : ComputeDomain}
    (hcurrent : current ≠ .unknown) :
    fillOperand domains operand current resultDomain = Except.ok (domains, current) := by
  rw [fillOperand, if_neg hcurrent]
  rfl

theorem constrainBinary_known {result lhs rhs : UInt32} (hresult : domains.inside result = true)
    (hlhs : domains.inside lhs = true) (hrhs : domains.inside rhs = true) :
    constrainBinary domains result lhs rhs = Except.ok (domains.checked
      (mergeComputeDomains (domainOf domains.values lhs) (domainOf domains.values rhs) ==
        domainOf domains.values result)) := by
  have hleft := hknown.ne_unknown hlhs
  have hright := hknown.ne_unknown hrhs
  have hnot := hknown.ne_unknown hresult
  rw [constrainBinary, if_neg (by simp [hresult, hlhs, hrhs]), at_eq hlhs, ok_bind, at_eq hrhs,
    ok_bind]
  dsimp only
  set merged := mergeComputeDomains (domainOf domains.values lhs) (domainOf domains.values rhs)
    with hmerged
  rcases eq_or_ne merged .unknown with hunknown | hmergedKnown
  · rw [if_pos ⟨hleft, hright, hunknown⟩, hunknown, beq_eq_false_iff_ne.mpr hnot.symm,
      EffectiveNodeDomains.checked_false]
    rfl
  · rw [if_neg (fun h => hmergedKnown h.2.2), assignDomain_known hknown hresult hmergedKnown,
      ok_bind, at_eq (by simpa using hresult), ok_bind, EffectiveNodeDomains.checked_values,
      if_neg hnot, fillOperand_known hleft, ok_bind]
    dsimp only
    rw [fillOperand_known hright, ok_bind]
    dsimp only
    rw [← hmerged, Bool.beq_comm (a := domainOf domains.values result)]
    rcases eq_or_ne merged (domainOf domains.values result) with heq | hne
    · rw [if_neg (by simp [heq, hnot])]
      rfl
    · rw [if_pos (Or.inr hne), beq_eq_false_iff_ne.mpr hne, EffectiveNodeDomains.checked_false]
      rfl

theorem constrainSelect_known {result : UInt32} {node : ParsedNode}
    (hresult : domains.inside result = true) (hrhs : domains.inside node.rhs = true)
    (haux : domains.inside node.aux = true) :
    constrainSelect masks domains result node = Except.ok (domains.checked
      (mergeComputeDomains (domainOf domains.values node.rhs) (domainOf domains.values node.aux) ==
        domainOf domains.values result)) := by
  rw [constrainSelect, constrainBinary_known hknown hresult hrhs haux, ok_bind,
    at_eq (by simpa using hresult), ok_bind, EffectiveNodeDomains.checked_values,
    if_neg (hknown.ne_unknown hresult)]
  rfl

end Known

/-- A called function that stays inside returns. -/
theorem canonicalMaskSource_returns (parsed : ParsedIR) (ref : UInt32) (fixedMode : Bool) :
    ∃ mask, (canonicalMaskSource parsed ref fixedMode : Validating Bool) = Except.ok mask := by
  have hsafe : Safely (canonicalMaskSource parsed ref fixedMode : Validating Bool) fun _ => True :=
    safely_canonicalMaskSource ref fixedMode
  rw [canonicalMaskSource] at hsafe ⊢
  revert hsafe
  generalize (do
    require (refInside parsed ref = true) false
    let source ← nodeAt parsed ref
    if fixedMode = true then do
      require (source.op = IrOp.quantize ∧ refInside parsed source.lhs = true) false
      let selected ← nodeAt parsed source.lhs
      require (selected.fixedFormat = source.fixedFormat) false
      canonicalMaskSelect parsed selected fixedMode
    else canonicalMaskSelect parsed source fixedMode : Checked Bool Bool) = body
  intro hsafe
  rcases body with (mask | -) | mask
  · exact ⟨mask, rfl⟩
  · exact absurd hsafe id
  · exact ⟨mask, rfl⟩

section Nodes

variable {domains : EffectiveNodeDomains} (hknown : domains.Known)
include hknown

theorem constrainWrite_known {node : ParsedNode} (hlhs : domains.inside node.lhs = true)
    (htarget : node.rhs = kWriteValue → parsed.bindingDomain node.aux ≠ .unknown) :
    constrainWrite parsed domains node = Except.ok (domains.checked
      (node.rhs != kWriteValue || storesMask parsed node ||
        domainOf domains.values node.lhs == parsed.bindingDomain node.aux)) := by
  obtain ⟨mask, hmask⟩ := canonicalMaskSource_returns parsed node.lhs false
  have hstores : storesMask parsed node =
      (unsignedDomain (parsed.bindingDomain node.aux) && mask) := by
    rw [storesMask, hmask]
  rw [constrainWrite]
  rcases eq_or_ne node.rhs kWriteValue with hvalue | hother
  · rw [if_pos hvalue, hmask, ok_bind, ← hstores, bne_eq_false_iff_eq.mpr hvalue, Bool.false_or]
    cases storesMask parsed node with
    | true => simp [pure, Except.pure]
    | false => simpa using assignDomain_known hknown hlhs (htarget hvalue)
  · simp [if_neg hother, bne_iff_ne.mpr hother, pure, Except.pure]

/-- With every domain known a constraint is a check. -/
theorem constrainOp_known {result : UInt32} {node : ParsedNode}
    (hresult : domains.inside result = true)
    (hoperands : ∀ ref ∈ valueOperands node, domains.inside ref = true)
    (htarget : node.op = .write → node.rhs = kWriteValue →
      parsed.bindingDomain node.aux ≠ .unknown) :
    constrainOp parsed masks domains result node =
      Except.ok (domains.checked (nodeSatisfied parsed domains.values result node)) := by
  have hwrite := fun hop : node.op = .write => constrainWrite_known hknown
    (hoperands node.lhs (by simp [valueOperands, hop])) (htarget hop)
  have hternary : ∀ hlhs : domains.inside node.lhs = true, domains.inside node.rhs = true →
      domains.inside node.aux = true →
      (do
        let domains ← constrainBinary domains result node.lhs node.rhs
        constrainBinary domains result result node.aux) = Except.ok (domains.checked
          (mergeComputeDomains (domainOf domains.values node.lhs)
              (domainOf domains.values node.rhs) == domainOf domains.values result &&
            mergeComputeDomains (domainOf domains.values result)
              (domainOf domains.values node.aux) == domainOf domains.values result)) := by
    intro hlhs hrhs haux
    rw [constrainBinary_known hknown hresult hlhs hrhs, ok_bind,
      constrainBinary_known (hknown.checked _) hresult hresult haux]
    simp
  obtain ⟨op, lhs, rhs, aux, format⟩ := node
  -- the shape of the operands decides which of the constraints it is
  cases op <;> simp only [valueOperands, List.mem_cons, List.not_mem_nil, or_false,
      forall_eq_or_imp, forall_eq] at hoperands <;>
    first
    | exact hternary hoperands.1 hoperands.2.1 hoperands.2.2
    | exact constrainSelect_known hknown hresult hoperands.2.1 hoperands.2.2
    | exact constrainBinary_known hknown hresult hoperands.1 hoperands.2
    | exact constrainUnary_known hknown hresult hoperands
    | exact hwrite rfl
    | simp [constrainOp, nodeSatisfied, pure, Except.pure]

end Nodes

/-! ### Sweeps -/

/-- `sweep(reverse)`. -/
def sweepOnce (parsed : ParsedIR) (masks : List Bool) (reverse : Bool)
    (domains : EffectiveNodeDomains) : Validating EffectiveNodeDomains :=
  forRange parsed.nodes.length (fun i => constrainNode parsed masks
    (bif reverse then parsed.nodes.length - 1 - i else i)) domains

theorem sweepBoth_eq (parsed : ParsedIR) (masks : List Bool) (domains : EffectiveNodeDomains) :
    sweepBoth parsed masks domains =
      sweepOnce parsed masks true domains >>= sweepOnce parsed masks false := rfl

/-- A sweep does nothing once the domains are invalid. -/
theorem sweepOnce_invalid {domains : EffectiveNodeDomains} (h : domains.valid = false)
    (reverse : Bool) : sweepOnce parsed masks reverse domains = Except.ok domains := by
  obtain ⟨after, hrun, rfl⟩ := forRange_returns (ε := String)
    (f := fun i => constrainNode parsed masks
      (bif reverse then parsed.nodes.length - 1 - i else i))
    (fun _ t => t = domains) (n := parsed.nodes.length) (s := domains) rfl
    fun i t _ ht => ⟨t, by simp [constrainNode, ht, h, pure, Except.pure], ht⟩
  exact hrun

theorem sweepBoth_invalid {domains : EffectiveNodeDomains} (h : domains.valid = false) :
    sweepBoth parsed masks domains = Except.ok domains := by
  rw [sweepBoth_eq, sweepOnce_invalid h, ok_bind, sweepOnce_invalid h]

/-- A write of a value has a target with a domain. -/
def TargetsKnown (parsed : ParsedIR) : Prop :=
  ∀ node ∈ parsed.nodes, node.op = .write → node.rhs = kWriteValue →
    parsed.bindingDomain node.aux ≠ .unknown

theorem targetsKnown_of_seeds (scalar : ComputeScalar)
    (h : parsed.nodes.all (seedValid parsed scalar) = true) : TargetsKnown parsed := by
  intro node hmem hop hvalue hunknown
  have hseed := List.all_eq_true.mp h node hmem
  simp [seedValid, seedDomain, bindingOp, hop, hvalue, hunknown, kWriteValue,
    kWriteBoundaryMask] at hseed

section Sweeps

variable (masks) (hrefs : WellReferenced parsed) (htargets : TargetsKnown parsed)
include hrefs htargets

/-- One node of a sweep over known domains. -/
theorem constrainNode_known {domains : EffectiveNodeDomains} (hknown : domains.Known)
    (hlen : domains.Of parsed.nodes.length) {i : Nat} {node : ParsedNode}
    (hnode : parsed.nodes[i]? = some node) :
    ∃ after, constrainNode parsed masks i domains = Except.ok after ∧
      after.values = domains.values ∧
      (after.valid = true ↔ domains.valid = true ∧
        nodeSatisfied parsed domains.values (UInt32.ofNat (i + 1)) node = true) := by
  have hi : i < parsed.nodes.length := (List.getElem?_eq_some_iff.mp hnode).1
  rw [constrainNode]
  rcases hvalid : domains.valid with - | -
  · exact ⟨domains, rfl, rfl, by simp [hvalid]⟩
  · rw [if_pos rfl, fetch_of_lt hnode, ok_bind, constrainOp_known hknown
      (inside_succ hlen hrefs.count_le hi) (fun ref href => ?_)
      (htargets node (List.mem_of_getElem? hnode))]
    · refine ⟨_, rfl, rfl, ?_⟩
      simp [EffectiveNodeDomains.checked, hvalid]
    · -- an operand is an earlier node
      obtain ⟨hne, hle⟩ := hrefs.values i node hnode ref href
      have hlength : domains.values.length = parsed.nodes.length := hlen
      rw [EffectiveNodeDomains.inside, Bool.and_eq_true, bne_iff_ne, decide_eq_true_eq, hlength]
      exact ⟨hne, hle.trans hi.le⟩

/-- A sweep over known domains checks every node and changes nothing. -/
theorem sweepOnce_known {domains : EffectiveNodeDomains} (hknown : domains.Known)
    (hlen : domains.Of parsed.nodes.length) (reverse : Bool) :
    ∃ after, sweepOnce parsed masks reverse domains = Except.ok after ∧
      after.values = domains.values ∧
      (after.valid = true ↔ domains.valid = true ∧ AllSatisfied parsed domains.values) := by
  set n := parsed.nodes.length with hn
  set order : Nat → Nat := fun i => bif reverse then n - 1 - i else i with horder
  have hback : ∀ i < n, order i < n ∧ order (order i) = i := by
    intro i hi
    cases reverse with
    | true =>
        simp only [horder, cond_true]
        omega
    | false => simpa [horder] using hi
  -- the nodes visited so far are satisfied as long as the domains are valid
  obtain ⟨after, hrun, hvalues, hvalid⟩ := forRange_returns (ε := String)
    (f := fun i => constrainNode parsed masks (order i))
    (fun k t => t.values = domains.values ∧ (t.valid = true ↔ domains.valid = true ∧
      ∀ i < k, ∀ node, parsed.nodes[order i]? = some node →
        nodeSatisfied parsed domains.values (UInt32.ofNat (order i + 1)) node = true))
    (n := n) (s := domains) ⟨rfl, by simp⟩ fun k t hk ht => by
      obtain ⟨node, hnode⟩ : ∃ node, parsed.nodes[order k]? = some node :=
        ⟨_, List.getElem?_eq_getElem (hback k hk).1⟩
      have hknownT : t.Known := fun v hv => hknown v (ht.1 ▸ hv)
      obtain ⟨t', hrun, hvalues, hvalid⟩ := constrainNode_known masks hrefs htargets hknownT
        (by rw [EffectiveNodeDomains.Of, ht.1]; exact hlen) hnode
      refine ⟨t', hrun, hvalues.trans ht.1, ?_⟩
      rw [hvalid, ht.2, ht.1, and_assoc]
      refine and_congr_right fun _ => ⟨fun h i hi => ?_, fun h => ⟨fun i hi => ?_, ?_⟩⟩
      · rcases Nat.lt_succ_iff_lt_or_eq.mp hi with hlt | rfl
        · exact h.1 i hlt
        · intro node' hnode'
          obtain rfl : node = node' := by simpa [hnode] using hnode'
          exact h.2
      · exact h i (Nat.lt_succ_of_lt hi)
      · exact h k (Nat.lt_succ_self k) node hnode
  refine ⟨after, hrun, hvalues, hvalid.trans (and_congr_right fun _ => ⟨fun h i node hnode => ?_,
    fun h i _ node hnode => h (order i) node hnode⟩)⟩
  have hi : i < n := (List.getElem?_eq_some_iff.mp hnode).1
  obtain ⟨hlt, hinv⟩ := hback i hi
  have hsat := h (order i) hlt node (by rw [hinv]; exact hnode)
  rwa [hinv] at hsat

/-- Any further sweeps keep known domains. -/
theorem sweeps_keep {domains : EffectiveNodeDomains} (hknown : domains.Known)
    (hlen : domains.Of parsed.nodes.length) (directions : List Bool) :
    ∃ after, forEach directions (sweepOnce parsed masks) domains = Except.ok after ∧
      after.values = domains.values := by
  induction directions generalizing domains with
  | nil => exact ⟨domains, rfl, rfl⟩
  | cons reverse directions ih =>
      obtain ⟨next, hrun, hvalues, -⟩ :=
        sweepOnce_known masks hrefs htargets hknown hlen reverse
      have hknownNext : next.Known := fun v hv => hknown v (hvalues ▸ hv)
      obtain ⟨after, hrest, hafter⟩ := ih hknownNext
        (by rw [EffectiveNodeDomains.Of, hvalues]; exact hlen)
      refine ⟨after, ?_, hafter.trans hvalues⟩
      rw [forEach, hrun, ok_bind]
      exact hrest

/-- Any further sweeps find satisfied nodes as they are. -/
theorem sweeps_settled {domains : EffectiveNodeDomains} (hknown : domains.Known)
    (hlen : domains.Of parsed.nodes.length) (hvalid : domains.valid = true)
    (hall : AllSatisfied parsed domains.values) (directions : List Bool) :
    forEach directions (sweepOnce parsed masks) domains = Except.ok domains := by
  induction directions with
  | nil => rfl
  | cons reverse directions ih =>
      obtain ⟨next, hrun, hvalues, hiff⟩ :=
        sweepOnce_known masks hrefs htargets hknown hlen reverse
      have hsame : next = domains := by
        obtain ⟨values, valid⟩ := next
        obtain ⟨values', valid'⟩ := domains
        dsimp only at hvalues hiff hvalid
        rw [hvalues, hiff.mpr ⟨hvalid, hall⟩, hvalid]
      rw [forEach, hrun, ok_bind, hsame]
      exact ih

/-- The second pair of sweeps, once the header has filled every gap. -/
theorem sweepBoth_known {domains : EffectiveNodeDomains} (hknown : domains.Known)
    (hlen : domains.Of parsed.nodes.length) :
    ∃ after, sweepBoth parsed masks domains = Except.ok after ∧
      after.values = domains.values ∧
      (after.valid = true → AllSatisfied parsed domains.values) := by
  obtain ⟨next, hrun, hvalues, -⟩ :=
    sweepOnce_known masks hrefs htargets hknown hlen true
  have hknownNext : next.Known := fun v hv => hknown v (hvalues ▸ hv)
  obtain ⟨after, hrun', hvalues', hiff⟩ := sweepOnce_known masks hrefs htargets hknownNext
    (by rw [EffectiveNodeDomains.Of, hvalues]; exact hlen) false
  refine ⟨after, ?_, hvalues'.trans hvalues, fun h => ?_⟩
  · rw [sweepBoth_eq, hrun, ok_bind]
    exact hrun'
  · rw [← hvalues]
    exact (hiff.mp h).2

end Sweeps

/-! ### The resolved domains -/

/-- What a successful resolution outside the fixed-point mode has gone through. -/
structure Resolved (parsed : ParsedIR) (scalar : ComputeScalar) (masks : List Bool)
    (domains : EffectiveNodeDomains) : Prop where
  valid : domains.valid = true
  known : domains.Known
  length : domains.Of parsed.nodes.length
  targets : TargetsKnown parsed
  sweeps : ∃ first, first.Of parsed.nodes.length ∧
    sweepBoth parsed masks (fillHeader (domainForMode scalar parsed.scalarMode) first) =
      Except.ok domains

theorem resolved_of_valid {scalar : ComputeScalar} {domains : EffectiveNodeDomains}
    (hrefs : WellReferenced parsed) (hmode : parsed.fixedMode scalar = false)
    (hmasks : canonicalValueMaskResults parsed = Except.ok masks)
    (hrun : resolveEffectiveNodeDomains parsed scalar = Except.ok domains)
    (hvalid : domains.valid = true) : Resolved parsed scalar masks domains := by
  have hmaskLength : masks.length = parsed.nodes.length + 1 :=
    safely_canonicalValueMaskResults.post hmasks
  have hlength : domains.Of parsed.nodes.length :=
    (safely_resolveEffectiveNodeDomains scalar hrefs.count_le).post hrun
  rw [resolveEffectiveNodeDomains, if_neg (by simp [hmode]), hmasks, ok_bind, bind_eq_ok] at hrun
  obtain ⟨first, hfirst, hrun⟩ := hrun
  obtain ⟨last, hlast, hpure⟩ := bind_eq_ok.mp hrun
  obtain rfl := pure_eq_ok.mp hpure
  obtain ⟨hlastValid, hall⟩ := Bool.and_eq_true_iff.mp hvalid
  have hknown : last.Known := by
    intro v hv
    simpa using List.all_eq_true.mp hall v hv
  have hsame : ({ last with valid := last.valid && last.values.all (· != .unknown) } :
      EffectiveNodeDomains) = last := by
    rw [hall, Bool.and_true]
  rw [hsame] at hlength ⊢
  refine ⟨hlastValid, hknown, hlength, ?_, first, ?_, hlast⟩
  · -- seeds that are not valid stay so through all the sweeps
    apply targetsKnown_of_seeds scalar
    by_contra hseeds
    rw [Bool.not_eq_true] at hseeds
    rw [sweepBoth_invalid (by exact hseeds), Except.ok.injEq] at hfirst
    subst hfirst
    rw [sweepBoth_invalid (by exact hseeds), Except.ok.injEq] at hlast
    subst hlast
    exact absurd (hlastValid.symm.trans hseeds) (by decide)
  · refine (safely_sweepBoth hmaskLength rfl hrefs.count_le ?_).post hfirst
    exact List.length_map ..

theorem fillHeader_known {header : ComputeDomain} (h : header ≠ .unknown)
    (domains : EffectiveNodeDomains) : (fillHeader header domains).Known := by
  intro v hv
  obtain ⟨value, -, rfl⟩ := List.mem_map.mp hv
  split
  · exact h
  · assumption

/-- **Resolved domains have settled**: once the domains of a parsed program are valid, no further
sweep in either direction changes one of them; and when the mode of the header names a domain of
the lane, no further sweep finds a conflict and every node is satisfied. -/
theorem resolveEffectiveNodeDomains_settled {ir : ComputeIR} {bytes : List UInt8}
    {domains : EffectiveNodeDomains} (hparse : parseComputeIR ir bytes = Except.ok parsed)
    (hmode : parsed.fixedMode ir.scalar = false)
    (hmasks : canonicalValueMaskResults parsed = Except.ok masks)
    (hrun : resolveEffectiveNodeDomains parsed ir.scalar = Except.ok domains)
    (hvalid : domains.valid = true) (directions : List Bool) :
    (∃ after, forEach directions (sweepOnce parsed masks) domains = Except.ok after ∧
      after.values = domains.values) ∧
    (domainForMode ir.scalar parsed.scalarMode ≠ .unknown →
      forEach directions (sweepOnce parsed masks) domains = Except.ok domains ∧
        AllSatisfied parsed domains.values) := by
  have hrefs : WellReferenced parsed :=
    ((safely_parseComputeIR ir bytes).post hparse).wellReferenced
  have hresolved := resolved_of_valid hrefs hmode hmasks hrun hvalid
  refine ⟨sweeps_keep masks hrefs hresolved.targets hresolved.known hresolved.length directions,
    fun hheader => ?_⟩
  obtain ⟨first, hfirst, hsweep⟩ := hresolved.sweeps
  obtain ⟨after, hrun', hvalues, hsatisfied⟩ := sweepBoth_known masks hrefs
    hresolved.targets (fillHeader_known hheader first)
    (by rw [EffectiveNodeDomains.Of, fillHeader, List.length_map]; exact hfirst)
  obtain rfl : after = domains := by
    rw [hsweep] at hrun'
    exact (Except.ok.inj hrun').symm
  have hall : AllSatisfied parsed after.values := by
    rw [hvalues]
    exact hsatisfied hresolved.valid
  exact ⟨sweeps_settled masks hrefs hresolved.targets hresolved.known hresolved.length
    hresolved.valid hall directions, hall⟩

theorem resolveEffectiveNodeDomains_settled_storeFive :
    forEach [true, false, true] (sweepOnce storeFive [false, false, false])
        { values := [.i32, .i32] } = Except.ok { values := [.i32, .i32] } ∧
      AllSatisfied storeFive [.i32, .i32] :=
  have hparse : parseComputeIR storeFiveIR (encodeWith [1] storeFive) = Except.ok storeFive := by
    decide
  have hrun : resolveEffectiveNodeDomains storeFive storeFiveIR.scalar =
      Except.ok { values := [.i32, .i32] } := by
    decide
  (resolveEffectiveNodeDomains_settled hparse (by decide) (by decide) hrun rfl
    [true, false, true]).2 (by decide)

/-- A program on 64-bit lanes whose header has a 32-bit domain.  Both domains of its two reads
travel down, across a sum and up again, and they meet at the complement of the third constant. -/
def crossedComplement : ParsedIR :=
  { scalarMode := 3
    bindings := [{ kind := kReadBindingKind, numericMode := 5, name := [0x61], elementBytes := 8 },
      { kind := kReadBindingKind, numericMode := 6, name := [0x62], elementBytes := 8 },
      { kind := kWriteBindingKind, numericMode := 5, name := [0x63], elementBytes := 8 }]
    nodes := [{ op := .read, aux := 0 }, { op := .read, aux := 1 }, { op := .constant },
      { op := .constant }, { op := .constant }, { op := .bitNot, lhs := 5 },
      { op := .bitNot, lhs := 3 }, { op := .bitNot, lhs := 4 }, { op := .bitNot, lhs := 1 },
      { op := .bitNot, lhs := 2 }, { op := .add, lhs := 3, rhs := 9 },
      { op := .add, lhs := 4, rhs := 10 }, { op := .add, lhs := 6, rhs := 7 },
      { op := .add, lhs := 5, rhs := 8 }, { op := .write, lhs := 1, aux := 2 }] }

def crossedComplementDomains : List ComputeDomain :=
  [.i64, .u64, .i64, .u64, .u64, .i64, .i64, .u64, .i64, .u64, .i64, .u64, .i64, .u64, .i64]

/-- The last sweep gives the complement and its operand two domains and nobody looks at them
again: the domains are valid, and the next sweep finds the conflict. -/
theorem crossedComplement_conflict :
    parseComputeIR { scalar := .lane64, domain := .i32, ok := true }
        (buildFusedCanonicalBytes crossedComplement) = Except.ok crossedComplement ∧
      canonicalValueMaskResults crossedComplement = Except.ok (List.replicate 16 false) ∧
      resolveEffectiveNodeDomains crossedComplement .lane64 =
        Except.ok { values := crossedComplementDomains } ∧
      sweepOnce crossedComplement (List.replicate 16 false) false
          { values := crossedComplementDomains } =
        Except.ok { values := crossedComplementDomains, valid := false } ∧
      nodeSatisfied crossedComplement crossedComplementDomains 6 { op := .bitNot, lhs := 5 } =
        false := by
  have haccepted : ParserAccepted { scalar := .lane64, domain := .i32, ok := true }
      crossedComplement :=
    { name_lt := by decide
      header := by decide
      binding_count := by decide
      bindings := by decide
      nodes_ne := by decide
      node_count := by decide
      nodes := by decide
      writes := by decide }
  refine ⟨parse_buildFusedCanonicalBytes haccepted, ?_, ?_, ?_, ?_⟩ <;> decide

end RunD
