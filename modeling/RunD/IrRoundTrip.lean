/-
The bytes of a compute program and the program they are parsed into.

`ParserAccepted` states which programs the parser returns, without reading:
its checks, each applied to a binding or a node and what stands before it.
Parsing the serialization of such a program returns the program
(`parse_encodeWith`), and bytes that parse are the serialization of what they
parse into, up to one byte of each binding (`parse_inv`).  That byte is the
floating-point flag, which the parser reads as "not zero" and the serializer
writes as zero or one; so bytes are canonical exactly when every flag is.
-/
import RunD.IrValidate
import Mathlib.Data.List.Induction

namespace RunD

open Reading

/-! ### Lists checked item by item -/

section Prefixwise

variable {α : Type} {P : List α → α → Prop}

/-- Every item satisfies `P` with the items before it. -/
def Prefixwise (P : List α → α → Prop) (xs : List α) : Prop :=
  ∀ i x, xs[i]? = some x → P (xs.take i) x

theorem prefixwise_nil : Prefixwise P [] := by
  intro i x h
  simp at h

theorem Prefixwise.snoc {xs : List α} {x : α} (hxs : Prefixwise P xs) (hx : P xs x) :
    Prefixwise P (xs ++ [x]) := by
  intro i y h
  rw [List.getElem?_append] at h
  split at h
  · next hi =>
    rw [List.take_append_of_le_length (by omega)]
    exact hxs i y h
  · next hi =>
    have hi' : i = xs.length := by
      have := (List.getElem?_eq_some_iff.mp h).1
      simp only [List.length_singleton] at this
      omega
    subst hi'
    rw [Nat.sub_self, List.getElem?_cons_zero, Option.some.injEq] at h
    rw [List.take_left, ← h]
    exact hx

theorem prefixwise_iff {xs : List α} :
    Prefixwise P xs ↔ ∀ i : Fin xs.length, P (xs.take i) (xs.get i) := by
  constructor
  · intro h i
    exact h i _ (List.getElem?_eq_getElem i.isLt)
  · intro h i x hx
    obtain ⟨hi, rfl⟩ := List.getElem?_eq_some_iff.mp hx
    exact h ⟨i, hi⟩

instance [∀ before x, Decidable (P before x)] (xs : List α) : Decidable (Prefixwise P xs) :=
  decidable_of_iff _ prefixwise_iff.symm

/-- Concatenating the items of a list by their positions. -/
theorem flatMap_range_getD (xss : List (List α)) :
    (List.range xss.length).flatMap (fun i => xss[i]?.getD []) = xss.flatten := by
  induction xss using List.reverseRecOn with
  | nil => rfl
  | append_singleton xss xs ih =>
      rw [List.length_append, List.length_singleton, List.range_succ, List.flatMap_append,
        List.flatMap_singleton, List.flatten_append]
      congr 1
      · rw [← ih]
        refine List.flatMap_congr fun i hi => ?_
        rw [List.getElem?_append_left (List.mem_range.mp hi)]
      · simp

end Prefixwise

/-! ### The programs the parser returns -/

structure BindingAccepted (before : List ParsedBinding) (binding : ParsedBinding) : Prop where
  valid : validateParsedBinding before binding = Except.ok ()
  name_lt : binding.name.length < 2 ^ 32
  value_lt : binding.valueBytes.length < 2 ^ 32

instance (before : List ParsedBinding) (binding : ParsedBinding) :
    Decidable (BindingAccepted before binding) :=
  decidable_of_iff (validateParsedBinding before binding = Except.ok () ∧
      binding.name.length < 2 ^ 32 ∧ binding.valueBytes.length < 2 ^ 32)
    ⟨fun h => ⟨h.1, h.2.1, h.2.2⟩, fun h => ⟨h.valid, h.name_lt, h.value_lt⟩⟩

structure NodeAdmitted (context : NodeContext) (before : List ParsedNode) (node : ParsedNode) :
    Prop where
  format : computeIntermediateFormatValid node.fixedFormat = true
  valid : validateParsedNode context before node before.length = Except.ok ()

instance (context : NodeContext) (before : List ParsedNode) (node : ParsedNode) :
    Decidable (NodeAdmitted context before node) :=
  decidable_of_iff (computeIntermediateFormatValid node.fixedFormat = true ∧
      validateParsedNode context before node before.length = Except.ok ())
    ⟨fun h => ⟨h.1, h.2⟩, fun h => ⟨h.format, h.valid⟩⟩

/-- The program of a header, as the checks of its nodes see it. -/
def ParsedIR.context (parsed : ParsedIR) (scalar : ComputeScalar) : NodeContext :=
  { scalar := scalar, scalarMode := parsed.scalarMode, bindings := parsed.bindings }

structure ParserAccepted (ir : ComputeIR) (parsed : ParsedIR) : Prop where
  name_lt : parsed.name.length < 2 ^ 32
  header : validateHeader ir parsed.scalarMode parsed.fixedFormat = Except.ok ()
  binding_count : parsed.bindings.length ≤ kMaxComputeBindingCount
  bindings : Prefixwise BindingAccepted parsed.bindings
  nodes_ne : parsed.nodes ≠ []
  node_count : parsed.nodes.length ≤ kMaxComputeNodeCount
  nodes : Prefixwise (NodeAdmitted (parsed.context ir.scalar)) parsed.nodes
  writes : writeNodeCount parsed.nodes ≠ 0

/-! ### Serialization with given flags -/

def encodeBindings (flags : List UInt8) (bindings : List ParsedBinding) : List UInt8 :=
  (List.zipWith encodeBinding flags bindings).flatten

/-- The bytes of a program with `flags` as the floating-point bytes of its bindings. -/
def encodeWith (flags : List UInt8) (parsed : ParsedIR) : List UInt8 :=
  encodeHeader parsed.name parsed.scalarMode parsed.fixedFormat ++
    encodeU32 (UInt32.ofNat parsed.bindings.length) ++ encodeBindings flags parsed.bindings ++
    encodeU32 (UInt32.ofNat parsed.nodes.length) ++ parsed.nodes.flatMap appendSerializedNode

/-- The flags say of each binding what the binding says. -/
def FlagsOf (flags : List UInt8) (bindings : List ParsedBinding) : Prop :=
  flags.map (· != 0) = bindings.map ParsedBinding.floatingPointParam

theorem FlagsOf.length_eq {flags : List UInt8} {bindings : List ParsedBinding}
    (h : FlagsOf flags bindings) : flags.length = bindings.length := by
  simpa using congrArg List.length h

theorem FlagsOf.getElem? {flags : List UInt8} {bindings : List ParsedBinding}
    (h : FlagsOf flags bindings) {i : Nat} {binding : ParsedBinding}
    (hb : bindings[i]? = some binding) :
    ∃ flag, flags[i]? = some flag ∧ binding.floatingPointParam = (flag != 0) := by
  have hi := congrArg (fun l => l[i]?) h
  simp only [List.getElem?_map, hb, Option.map_some] at hi
  obtain ⟨flag, hflag, heq⟩ := Option.map_eq_some_iff.mp hi
  exact ⟨flag, hflag, heq.symm⟩

theorem flagsOf_canonical (bindings : List ParsedBinding) :
    FlagsOf (bindings.map floatingPointByte) bindings := by
  rw [FlagsOf, List.map_map]
  refine List.map_congr_left fun binding _ => ?_
  cases hb : binding.floatingPointParam <;> simp [floatingPointByte, hb]

theorem buildFusedCanonicalBytes_eq (parsed : ParsedIR) :
    buildFusedCanonicalBytes parsed =
      encodeWith (parsed.bindings.map floatingPointByte) parsed := by
  have hzip : ∀ bindings : List ParsedBinding,
      encodeBindings (bindings.map floatingPointByte) bindings =
        bindings.flatMap appendSerializedBinding := by
    intro bindings
    induction bindings with
    | nil => rfl
    | cons binding rest ih =>
        rw [List.flatMap_cons, ← ih]
        rfl
  rw [buildFusedCanonicalBytes, encodeWith, hzip]

theorem encodeBindings_snoc {flags : List UInt8} {bindings : List ParsedBinding} {flag : UInt8}
    {binding : ParsedBinding} (h : flags.length = bindings.length) :
    encodeBindings (flags ++ [flag]) (bindings ++ [binding]) =
      encodeBindings flags bindings ++ encodeBinding flag binding := by
  rw [encodeBindings, List.zipWith_append h, List.flatten_append]
  simp [encodeBindings]

/-! ### From the program to the bytes and back -/

theorem Reads.of_eq {ε α : Type} {p : Reading ε α} {code code' : List UInt8} {a : α}
    (h : Reads p code a) (heq : code = code') : Reads p code' a := heq ▸ h

theorem reads_readFormat (format : ComputeFixedFormat) :
    Reads readFormat (encodeFormat format) format := by
  refine (reads_readU8 _ format.integerBits).bind ?_
  refine (reads_readU8 _ format.fractionBits).bind ?_
  refine (reads_readU8 _ format.rounding).bind ?_
  refine (reads_readU8 _ format.overflow).bind ?_
  exact (reads_readU8 _ format.approximation).bind (reads_pure _)

theorem reads_readParsedBinding {flag : UInt8} {binding : ParsedBinding}
    (hflag : binding.floatingPointParam = (flag != 0)) (hname : binding.name.length < 2 ^ 32)
    (hvalue : binding.valueBytes.length < 2 ^ 32) :
    Reads readParsedBinding (encodeBinding flag binding) binding := by
  have hread : Reads readParsedBinding _ { binding with floatingPointParam := flag != 0 } :=
    (reads_readU8 _ binding.kind).bind <| (reads_readU8 _ binding.numericMode).bind <|
      (reads_readBytes _ hname).bind <| (reads_readU32 _ binding.elementBytes).bind <|
        (reads_readU8 _ flag).bind <| (reads_readBytes _ hvalue).bind <| reads_pure _
  rw [← hflag] at hread
  refine hread.of_eq ?_
  simp [encodeBinding]

theorem reads_bindings {flags : List UInt8} {bindings : List ParsedBinding}
    (hflags : FlagsOf flags bindings) (hbindings : Prefixwise BindingAccepted bindings) :
    Reads (times bindings.length appendParsedBinding []) (encodeBindings flags bindings)
      bindings := by
  have hlen : (List.zipWith encodeBinding flags bindings).length = bindings.length := by
    rw [List.length_zipWith, hflags.length_eq, Nat.min_self]
  have hloop := reads_times (ε := String) (fun i => bindings.take i)
    (fun i => (List.zipWith encodeBinding flags bindings)[i]?.getD []) bindings.length
    (f := appendParsedBinding) fun i hi => by
      obtain ⟨binding, hb⟩ : ∃ binding, bindings[i]? = some binding :=
        ⟨_, List.getElem?_eq_getElem hi⟩
      obtain ⟨flag, hf, hflag⟩ := hflags.getElem? hb
      have haccepted := hbindings i binding hb
      have hcode : (List.zipWith encodeBinding flags bindings)[i]?.getD [] =
          encodeBinding flag binding := by
        rw [List.getElem?_zipWith, hf, hb]
        rfl
      have hnext : bindings.take (i + 1) = bindings.take i ++ [binding] := by
        rw [List.take_add_one, hb]
        rfl
      rw [hcode, hnext]
      refine (reads_readParsedBinding hflag haccepted.name_lt haccepted.value_lt).bind ?_ |>.of_eq
        (List.append_nil _)
      exact Reads.lift_bind haccepted.valid (reads_pure _)
  rw [List.take_zero, List.take_length, ← hlen, flatMap_range_getD, hlen] at hloop
  exact hloop

theorem reads_readParsedNode {node : ParsedNode}
    (hformat : computeIntermediateFormatValid node.fixedFormat = true) :
    Reads readParsedNode (appendSerializedNode node) node := by
  refine Reads.of_eq ((reads_readU8 _ node.op.code).bind <| (reads_readU32 _ node.lhs).bind <|
    (reads_readU32 _ node.rhs).bind <| (reads_readU32 _ node.aux).bind <|
      (reads_readFormat node.fixedFormat).bind (?_ : Reads _ [] node)) ?_
  · rw [IrOp.ofCode_code]
    exact Reads.require_bind hformat (reads_pure _)
  · simp [appendSerializedNode]

theorem reads_nodes {context : NodeContext} {nodes : List ParsedNode}
    (hnodes : Prefixwise (NodeAdmitted context) nodes) :
    Reads (times nodes.length (appendParsedNode context) [])
      (nodes.flatMap appendSerializedNode) nodes := by
  have hlen : (nodes.map appendSerializedNode).length = nodes.length := List.length_map ..
  have hloop := reads_times (ε := String) (fun i => nodes.take i)
    (fun i => (nodes.map appendSerializedNode)[i]?.getD []) nodes.length
    (f := appendParsedNode context) fun i hi => by
      obtain ⟨node, hn⟩ : ∃ node, nodes[i]? = some node := ⟨_, List.getElem?_eq_getElem hi⟩
      have hadmitted := hnodes i node hn
      have hcode : (nodes.map appendSerializedNode)[i]?.getD [] = appendSerializedNode node := by
        rw [List.getElem?_map, hn]
        rfl
      have hnext : nodes.take (i + 1) = nodes.take i ++ [node] := by
        rw [List.take_add_one, hn]
        rfl
      have hvalid := hadmitted.valid
      rw [List.length_take, Nat.min_eq_left hi.le] at hvalid
      rw [hcode, hnext]
      refine (reads_readParsedNode hadmitted.format).bind ?_ |>.of_eq (List.append_nil _)
      exact Reads.lift_bind hvalid (reads_pure _)
  rw [List.take_zero, List.take_length, ← hlen, flatMap_range_getD, hlen] at hloop
  exact hloop

/-- Every record takes up the bytes its count check asks for. -/
theorem length_encodeBinding_ge (flag : UInt8) (binding : ParsedBinding) :
    kMinBindingBytes ≤ (encodeBinding flag binding).length := by
  simp only [encodeBinding, encodeBytes, List.length_append, length_encodeU32, List.length_cons,
    List.length_nil, kMinBindingBytes]
  omega

theorem length_appendSerializedNode (node : ParsedNode) :
    (appendSerializedNode node).length = kSerializedNodeBytes := rfl

theorem length_encodeBindings_ge {flags : List UInt8} {bindings : List ParsedBinding}
    (h : flags.length = bindings.length) :
    kMinBindingBytes * bindings.length ≤ (encodeBindings flags bindings).length := by
  induction bindings generalizing flags with
  | nil => simp
  | cons binding bindings ih =>
      match flags, h with
      | flag :: flags, h =>
          have hlen := length_encodeBinding_ge flag binding
          have := @ih flags (by simpa using h)
          rw [encodeBindings] at this ⊢
          simp only [List.zipWith_cons_cons, List.flatten_cons, List.length_append,
            List.length_cons]
          rw [Nat.mul_add]
          omega

theorem length_flatMap_nodes (nodes : List ParsedNode) :
    (nodes.flatMap appendSerializedNode).length = kSerializedNodeBytes * nodes.length := by
  induction nodes with
  | nil => rfl
  | cons node nodes ih =>
      rw [List.flatMap_cons, List.length_append, ih, length_appendSerializedNode, List.length_cons,
        Nat.mul_add]
      omega

theorem ofNat_toNat_of_le {n m : Nat} (h : n ≤ m) (hm : m < 2 ^ 32) :
    (UInt32.ofNat n).toNat = n := by
  rw [UInt32.toNat_ofNat']
  exact Nat.mod_eq_of_lt (by omega)

section Complete

variable {ir : ComputeIR} {parsed : ParsedIR} (hparsed : ParserAccepted ir parsed)
  {flags : List UInt8} (hflags : FlagsOf flags parsed.bindings)
include hparsed

include hflags in
theorem reads_readBindings :
    Reads readBindings (encodeU32 (UInt32.ofNat parsed.bindings.length) ++
      encodeBindings flags parsed.bindings) parsed.bindings := by
  have hcount : (UInt32.ofNat parsed.bindings.length).toNat = parsed.bindings.length :=
    ofNat_toNat_of_le hparsed.binding_count (by decide)
  have hroom : parsed.bindings.length ≤
      (encodeBindings flags parsed.bindings).length / kMinBindingBytes :=
    (Nat.le_div_iff_mul_le (by decide)).mpr
      (by rw [mul_comm]; exact length_encodeBindings_ge hflags.length_eq)
  refine (reads_readU32 _ _).bind ?_
  rw [hcount]
  refine Reads.require_bind hparsed.binding_count ?_
  exact Reads.room_bind hroom (reads_bindings hflags hparsed.bindings)

theorem reads_readNodes :
    Reads (readNodes (parsed.context ir.scalar)) (encodeU32 (UInt32.ofNat parsed.nodes.length) ++
      parsed.nodes.flatMap appendSerializedNode) parsed.nodes := by
  have hcount : (UInt32.ofNat parsed.nodes.length).toNat = parsed.nodes.length :=
    ofNat_toNat_of_le hparsed.node_count (by decide)
  have hne : UInt32.ofNat parsed.nodes.length ≠ 0 := by
    intro h0
    rw [h0] at hcount
    exact hparsed.nodes_ne (List.length_eq_zero_iff.mp hcount.symm)
  have hroom : parsed.nodes.length ≤
      (parsed.nodes.flatMap appendSerializedNode).length / kSerializedNodeBytes := by
    rw [length_flatMap_nodes, Nat.mul_div_cancel_left _ (by decide)]
  refine (reads_readU32 _ _).bind ?_
  rw [hcount]
  refine Reads.require_bind hne (Reads.require_bind hparsed.node_count ?_)
  exact Reads.room_bind hroom (reads_nodes hparsed.nodes)

include hflags in
theorem reads_readProgram : Reads (readProgram ir) (encodeWith flags parsed) parsed := by
  have hschema : kSchema.length < 2 ^ 32 := by decide
  have hread : Reads (readProgram ir) _ parsed :=
    (reads_readBytes _ hschema).bind <| Reads.require_bind rfl <|
      (reads_readBytes _ hparsed.name_lt).bind <| (reads_readU8 _ parsed.scalarMode).bind <|
        (reads_readFormat parsed.fixedFormat).bind <| Reads.lift_bind hparsed.header <|
          (reads_readBindings hparsed hflags).bind <| (reads_readNodes hparsed).bind <|
            reads_pure _
  refine hread.of_eq ?_
  simp only [encodeWith, encodeHeader, List.append_assoc, List.append_nil, List.cons_append,
    List.nil_append]

include hflags in
/-- **Parsing the bytes of a program the parser accepts returns the program.** -/
theorem parse_encodeWith : parseComputeIR ir (encodeWith flags parsed) = Except.ok parsed := by
  have hrun := reads_readProgram hparsed hflags { bytes := encodeWith flags parsed } []
    (Nat.zero_le _) (by rw [List.append_nil]; rfl)
  simp only [parseComputeIR, parseComputeIRUnchecked, reading_bind, hrun, ok_bind, requireDone,
    lift, Reader.skip, Nat.zero_add, require, if_pos, hparsed.writes, ne_eq, not_false_eq_true]
  rfl

end Complete

/-! ### From the bytes to the program and back -/

theorem consumes_readFormat :
    Consumes readFormat fun format code => code = encodeFormat format := by
  refine (consumes_readU8 _).bind fun i c₁ h₁ => ?_
  refine (consumes_readU8 _).bind fun f c₂ h₂ => ?_
  refine (consumes_readU8 _).bind fun r c₃ h₃ => ?_
  refine (consumes_readU8 _).bind fun o c₄ h₄ => ?_
  refine (consumes_readU8 _).bind fun a c₅ h₅ => ?_
  refine consumes_pure ?_
  rw [h₁, h₂, h₃, h₄, h₅]
  rfl

theorem consumes_readParsedBinding :
    Consumes readParsedBinding fun binding code => ∃ flag : UInt8,
      code = encodeBinding flag binding ∧ binding.floatingPointParam = (flag != 0) ∧
      binding.name.length < 2 ^ 32 ∧ binding.valueBytes.length < 2 ^ 32 := by
  refine (consumes_readU8 _).bind fun kind c₁ h₁ => ?_
  refine (consumes_readU8 _).bind fun mode c₂ h₂ => ?_
  refine (consumes_readBytes _).bind fun name c₃ h₃ => ?_
  refine (consumes_readU32 _).bind fun size c₄ h₄ => ?_
  refine (consumes_readU8 _).bind fun flag c₅ h₅ => ?_
  refine (consumes_readBytes _).bind fun value c₆ h₆ => ?_
  refine consumes_pure ⟨flag, ?_, rfl, h₃.2, h₆.2⟩
  rw [h₁, h₂, h₃.1, h₄, h₅, h₆.1]
  simp [encodeBinding]

theorem consumes_bindings (n : Nat) :
    Consumes (times n appendParsedBinding []) fun bindings code =>
      bindings.length = n ∧ Prefixwise BindingAccepted bindings ∧
        ∃ flags, FlagsOf flags bindings ∧ code = encodeBindings flags bindings := by
  refine consumes_times (fun i bindings code => bindings.length = i ∧
    Prefixwise BindingAccepted bindings ∧
      ∃ flags, FlagsOf flags bindings ∧ code = encodeBindings flags bindings)
    ⟨rfl, prefixwise_nil, [], rfl, rfl⟩ fun i bindings c₁ hi h => ?_
  obtain ⟨hlen, hbindings, flags, hflags, rfl⟩ := h
  refine consumes_readParsedBinding.bind fun binding c₂ h₂ => ?_
  obtain ⟨flag, rfl, hflag, hname, hvalue⟩ := h₂
  refine (consumes_lift (Q := fun (_ : Unit) code =>
    validateParsedBinding bindings binding = Except.ok () ∧ code = []) fun _ hx =>
      ⟨hx, rfl⟩).bind fun _ c₃ h₃ => ?_
  obtain ⟨hvalid, rfl⟩ := h₃
  refine consumes_pure ⟨by rw [List.length_append, hlen]; rfl,
    hbindings.snoc ⟨hvalid, hname, hvalue⟩, flags ++ [flag], ?_, ?_⟩
  · rw [FlagsOf, List.map_append, List.map_append, hflags, List.map_singleton,
      List.map_singleton, hflag]
  · rw [encodeBindings_snoc hflags.length_eq, List.append_nil, List.append_nil]

theorem consumes_readBindings :
    Consumes readBindings fun bindings code =>
      bindings.length ≤ kMaxComputeBindingCount ∧ Prefixwise BindingAccepted bindings ∧
        ∃ flags, FlagsOf flags bindings ∧
          code = encodeU32 (UInt32.ofNat bindings.length) ++ encodeBindings flags bindings := by
  refine (consumes_readU32 _).bind fun count c₁ h₁ => ?_
  refine (consumes_lift (Q := fun (_ : Unit) code =>
    count.toNat ≤ kMaxComputeBindingCount ∧ code = []) fun _ hx =>
      ⟨require_eq_ok.mp hx, rfl⟩).bind fun _ c₂ h₂ => ?_
  obtain ⟨hcount, rfl⟩ := h₂
  refine (consumes_requireRoom (R := fun _ code => code = []) rfl).bind fun _ c₃ h₃ => ?_
  subst h₃
  refine (consumes_bindings count.toNat).mono fun bindings c₄ h₄ => ?_
  obtain ⟨hlen, hbindings, flags, hflags, rfl⟩ := h₄
  refine ⟨by rw [hlen]; exact hcount, hbindings, flags, hflags, ?_⟩
  rw [hlen, UInt32.ofNat_toNat, h₁]
  rfl

theorem consumes_readParsedNode :
    Consumes readParsedNode fun node code => code = appendSerializedNode node ∧
      computeIntermediateFormatValid node.fixedFormat = true := by
  refine (consumes_readU8 _).bind fun op c₁ h₁ => ?_
  refine (consumes_readU32 _).bind fun lhs c₂ h₂ => ?_
  refine (consumes_readU32 _).bind fun rhs c₃ h₃ => ?_
  refine (consumes_readU32 _).bind fun aux c₄ h₄ => ?_
  refine consumes_readFormat.bind fun format c₅ h₅ => ?_
  rcases hop : IrOp.ofCode op with - | op'
  · exact consumes_lift fun a ha => absurd ha leave_ne_ok
  · refine (consumes_lift (Q := fun (_ : Unit) code =>
      computeIntermediateFormatValid format = true ∧ code = []) fun _ hx =>
        ⟨require_eq_ok.mp hx, rfl⟩).bind fun _ c₆ h₆ => ?_
    obtain ⟨hformat, rfl⟩ := h₆
    refine consumes_pure ⟨?_, hformat⟩
    rw [h₁, h₂, h₃, h₄, h₅, ← IrOp.code_of_ofCode hop]
    simp [appendSerializedNode]

theorem consumes_nodes (context : NodeContext) (n : Nat) :
    Consumes (times n (appendParsedNode context) []) fun nodes code =>
      nodes.length = n ∧ Prefixwise (NodeAdmitted context) nodes ∧
        code = nodes.flatMap appendSerializedNode := by
  refine consumes_times (fun i nodes code => nodes.length = i ∧
    Prefixwise (NodeAdmitted context) nodes ∧ code = nodes.flatMap appendSerializedNode)
    ⟨rfl, prefixwise_nil, rfl⟩ fun i nodes c₁ hi h => ?_
  obtain ⟨hlen, hnodes, rfl⟩ := h
  refine consumes_readParsedNode.bind fun node c₂ h₂ => ?_
  obtain ⟨rfl, hformat⟩ := h₂
  refine (consumes_lift (Q := fun (_ : Unit) code =>
    validateParsedNode context nodes node i = Except.ok () ∧ code = []) fun _ hx =>
      ⟨hx, rfl⟩).bind fun _ c₃ h₃ => ?_
  obtain ⟨hvalid, rfl⟩ := h₃
  rw [← hlen] at hvalid
  refine consumes_pure ⟨by rw [List.length_append, hlen]; rfl, hnodes.snoc ⟨hformat, hvalid⟩, ?_⟩
  simp

theorem consumes_readNodes (context : NodeContext) :
    Consumes (readNodes context) fun nodes code =>
      nodes ≠ [] ∧ nodes.length ≤ kMaxComputeNodeCount ∧
        Prefixwise (NodeAdmitted context) nodes ∧
        code = encodeU32 (UInt32.ofNat nodes.length) ++ nodes.flatMap appendSerializedNode := by
  refine (consumes_readU32 _).bind fun count c₁ h₁ => ?_
  refine (consumes_lift (Q := fun (_ : Unit) code => count ≠ 0 ∧ code = []) fun _ hx =>
    ⟨require_eq_ok.mp hx, rfl⟩).bind fun _ c₂ h₂ => ?_
  obtain ⟨hne, rfl⟩ := h₂
  refine (consumes_lift (Q := fun (_ : Unit) code =>
    count.toNat ≤ kMaxComputeNodeCount ∧ code = []) fun _ hx =>
      ⟨require_eq_ok.mp hx, rfl⟩).bind fun _ c₃ h₃ => ?_
  obtain ⟨hcount, rfl⟩ := h₃
  refine (consumes_requireRoom (R := fun _ code => code = []) rfl).bind fun _ c₄ h₄ => ?_
  subst h₄
  refine (consumes_nodes context count.toNat).mono fun nodes c₅ h₅ => ?_
  obtain ⟨hlen, hnodes, rfl⟩ := h₅
  refine ⟨fun h0 => ?_, by rw [hlen]; exact hcount, hnodes, ?_⟩
  · rw [h0, List.length_nil] at hlen
    exact hne (UInt32.toNat_inj.mp hlen.symm)
  · rw [hlen, UInt32.ofNat_toNat, h₁]
    rfl

/-- What `readProgram` returns, but for the number of writes. -/
theorem consumes_readProgram (ir : ComputeIR) :
    Consumes (readProgram ir) fun parsed code =>
      (writeNodeCount parsed.nodes ≠ 0 → ParserAccepted ir parsed) ∧
        ∃ flags, FlagsOf flags parsed.bindings ∧ code = encodeWith flags parsed := by
  refine (consumes_readBytes _).bind fun schema c₁ h₁ => ?_
  refine (consumes_lift (Q := fun (_ : Unit) code => schema = kSchema ∧ code = []) fun _ hx =>
    ⟨require_eq_ok.mp hx, rfl⟩).bind fun _ c₂ h₂ => ?_
  obtain ⟨rfl, rfl⟩ := h₂
  refine (consumes_readBytes _).bind fun name c₃ h₃ => ?_
  refine (consumes_readU8 _).bind fun mode c₄ h₄ => ?_
  refine consumes_readFormat.bind fun format c₅ h₅ => ?_
  refine (consumes_lift (Q := fun (_ : Unit) code =>
    validateHeader ir mode format = Except.ok () ∧ code = []) fun _ hx =>
      ⟨hx, rfl⟩).bind fun _ c₆ h₆ => ?_
  obtain ⟨hheader, rfl⟩ := h₆
  refine consumes_readBindings.bind fun bindings c₇ h₇ => ?_
  obtain ⟨hbcount, hbindings, flags, hflags, rfl⟩ := h₇
  refine (consumes_readNodes _).bind fun nodes c₈ h₈ => ?_
  obtain ⟨hne, hncount, hnodes, rfl⟩ := h₈
  refine consumes_pure ⟨fun hwrites => ⟨h₃.2, hheader, hbcount, hbindings, hne, hncount, hnodes,
    hwrites⟩, flags, hflags, ?_⟩
  rw [h₁.1, h₃.1, h₄, h₅]
  simp [encodeWith, encodeHeader]

/-- **Bytes that parse are the serialization of what they parse into**, with some flags. -/
theorem parse_inv {ir : ComputeIR} {bytes : List UInt8} {parsed : ParsedIR}
    (h : parseComputeIR ir bytes = Except.ok parsed) :
    ParserAccepted ir parsed ∧
      ∃ flags, FlagsOf flags parsed.bindings ∧ bytes = encodeWith flags parsed := by
  simp only [parseComputeIR, parseComputeIRUnchecked, reading_bind, bind_eq_ok, pure_eq_ok] at h
  obtain ⟨⟨parsed', r⟩, ⟨⟨parsed₁, r₁⟩, hread, ⟨_, r₂⟩, hdone, ⟨_, r₃⟩, hwrites, hpure⟩, rfl⟩ := h
  rw [reading_pure, Except.ok.injEq, Prod.mk.injEq] at hpure
  obtain ⟨rfl, rfl⟩ := hpure
  obtain ⟨code, hadv, haccepted, flags, hflags, rfl⟩ :=
    consumes_readProgram ir _ _ _ (Nat.zero_le _) hread
  have hcount : writeNodeCount parsed₁.nodes ≠ 0 := by
    simp only [lift, bind_eq_ok, require_eq_ok] at hwrites
    obtain ⟨_, hw, -⟩ := hwrites
    exact hw
  have hend : r₁.offset = r₁.bytes.length := by
    simp only [requireDone, bind_eq_ok, require_eq_ok] at hdone
    obtain ⟨_, hd, -⟩ := hdone
    exact hd
  refine ⟨haccepted hcount, flags, hflags, ?_⟩
  have hrest := hadv.rest_eq
  rw [Reader.rest, List.drop_zero, Reader.rest, hend, List.drop_length, List.append_nil] at hrest
  exact hrest

/-! ### The round trip -/

/-- With its name empty and its formats written out, a program is serialized alike by both. -/
theorem buildCanonicalBytes_explicit (mode : ScalarMode) {format : ComputeFixedFormat}
    (bindings : List BindingRuntime) {nodes : List ComputeIrNode}
    (h : ∀ node ∈ nodes, computeFixedFormatAbsent node.fixedFormat = true →
      computeFixedFormatAbsent format = true) :
    buildCanonicalBytes [] mode format bindings nodes =
      buildFusedCanonicalBytes (builtIR [] mode format bindings nodes) := by
  have hresolve : nodes.map (resolveFormat format) = nodes := by
    refine (List.map_congr_left fun node hmem => ?_).trans nodes.map_id
    show resolveFormat format node = node
    rw [resolveFormat, nodeFormat]
    split
    · next habsent =>
      rw [computeFixedFormatAbsent_iff.mp (h node hmem habsent),
        ← computeFixedFormatAbsent_iff.mp habsent]
    · rfl
  rw [buildCanonicalBytes_eq, hresolve]

/-- The canonical bytes of a program the parser accepts parse as the program. -/
theorem parse_buildFusedCanonicalBytes {ir : ComputeIR} {parsed : ParsedIR}
    (haccepted : ParserAccepted ir parsed) :
    parseComputeIR ir (buildFusedCanonicalBytes parsed) = Except.ok parsed := by
  rw [buildFusedCanonicalBytes_eq]
  exact parse_encodeWith haccepted (flagsOf_canonical _)

/-- **The programs that come back from their bytes are those the parser returns**, and the
builder writes the bytes the lowering writes for the program with its name left out and the
formats of its nodes written out. -/
theorem serialization_roundTrip (ir : ComputeIR) (parsed : ParsedIR) :
    (ParserAccepted ir parsed ↔ ∃ bytes, parseComputeIR ir bytes = Except.ok parsed) ∧
      (ParserAccepted ir parsed ↔
        parseComputeIR ir (buildFusedCanonicalBytes parsed) = Except.ok parsed) ∧
      (∀ name mode format bindings nodes,
        buildCanonicalBytes name mode format bindings nodes =
          buildFusedCanonicalBytes
            (builtIR [] mode format bindings (nodes.map (resolveFormat format)))) ∧
      ∀ mode format bindings nodes,
        (∀ node ∈ nodes, computeFixedFormatAbsent node.fixedFormat = true →
          computeFixedFormatAbsent format = true) →
        buildCanonicalBytes [] mode format bindings nodes =
          buildFusedCanonicalBytes (builtIR [] mode format bindings nodes) := by
  refine ⟨⟨fun h => ⟨_, parse_buildFusedCanonicalBytes h⟩, ?_⟩,
    ⟨parse_buildFusedCanonicalBytes, fun h => (parse_inv h).1⟩,
    buildCanonicalBytes_eq, fun mode format bindings nodes h =>
      buildCanonicalBytes_explicit mode bindings h⟩
  rintro ⟨bytes, h⟩
  exact (parse_inv h).1

/-- A program whose parameter node has an operand.  The validator has no complaint, since the
parser checks such operands, and the parser does not take the program back. -/
def strayOperand : ParsedIR :=
  { scalarMode := 3
    bindings :=
      [{ kind := kParamBindingKind, numericMode := 3, name := [0x70], elementBytes := 4,
         valueBytes := [1, 0, 0, 0] },
       { kind := kWriteBindingKind, numericMode := 3, name := [0x6f], elementBytes := 4 }]
    nodes := [{ op := .param, lhs := 7 }, { op := .write, lhs := 1, aux := 1 }] }

/-- The binding and the nodes of a program that stores the constant five. -/
def storeBinding : BindingRuntime :=
  { kind := .write, numericMode := .i32, name := [0x6f], elementBytes := 4 }

def storeNodes : List ComputeIrNode := [{ op := .constant, lhs := 5 }, { op := .write, lhs := 1 }]

/-- Validation alone does not make a program come back from its bytes, and the builder drops the
name that the lowering writes. -/
theorem serialization_strayOperand_name :
    (validateLowerableIR strayOperand .lane32 = Except.ok () ∧
      parseComputeIR { scalar := .lane32, domain := .i32, ok := true }
        (buildFusedCanonicalBytes strayOperand) ≠ Except.ok strayOperand) ∧
    buildCanonicalBytes [0x6e] .i32 {} [storeBinding] storeNodes ≠
      buildFusedCanonicalBytes (builtIR [0x6e] .i32 {} [storeBinding] storeNodes) := by
  decide

/-! ### Canonical bytes -/

/-- The floating-point byte of the next binding. -/
def walkBindingFlag (_index : Nat) (flags : List UInt8) : Parsing (List UInt8) := do
  let _kind ← slice kMalformed 2
  let _name ← readBytes kMalformed
  let _elementBytes ← readU32 kMalformed
  let flag ← readU8 kMalformed
  let _value ← readBytes kMalformed
  pure (flags ++ [flag])

/-- The floating-point bytes of the bindings, by walking over the fields before the nodes. -/
def walkBindingFlags : Parsing (List UInt8) := do
  let _schema ← readBytes kMalformed
  let _name ← readBytes kMalformed
  let _header ← slice kMalformed 6
  let bindingCount ← readU32 kMalformed
  times bindingCount.toNat walkBindingFlag []

def bindingFlagBytes (bytes : List UInt8) : List UInt8 :=
  match walkBindingFlags { bytes := bytes } with
  | Except.ok (flags, _) => flags
  | Except.error _ => []

theorem Reads.slice_bind {ε α : Type} {short : ε} {n : Nat} (value : List UInt8)
    {code : List UInt8} {f : List UInt8 → Reading ε α} {a : α} (hn : value.length = n)
    (hf : Reads (f value) code a) : Reads (slice short n >>= f) (value ++ code) a := by
  subst hn
  exact (reads_slice short value).bind hf

theorem reads_walkBindingFlag {before : List ParsedBinding} {binding : ParsedBinding}
    (haccepted : BindingAccepted before binding) (i : Nat) (flags : List UInt8) (flag : UInt8) :
    Reads (walkBindingFlag i flags) (encodeBinding flag binding) (flags ++ [flag]) := by
  have hcode : encodeBinding flag binding = [binding.kind, binding.numericMode] ++
      (encodeBytes binding.name ++ (encodeU32 binding.elementBytes ++
        ([flag] ++ (encodeBytes binding.valueBytes ++ [])))) := by
    simp [encodeBinding]
  rw [hcode]
  refine Reads.slice_bind _ rfl ?_
  refine (reads_readBytes _ haccepted.name_lt).bind ?_
  refine (reads_readU32 _ binding.elementBytes).bind ?_
  refine (reads_readU8 _ flag).bind ?_
  exact (reads_readBytes _ haccepted.value_lt).bind (reads_pure _)

theorem reads_walkFlags {flags : List UInt8} {bindings : List ParsedBinding}
    (hlen : flags.length = bindings.length) (hbindings : Prefixwise BindingAccepted bindings) :
    Reads (times bindings.length walkBindingFlag []) (encodeBindings flags bindings) flags := by
  have hzip : (List.zipWith encodeBinding flags bindings).length = bindings.length := by
    rw [List.length_zipWith, hlen, Nat.min_self]
  have hloop := reads_times (ε := String) (fun i => flags.take i)
    (fun i => (List.zipWith encodeBinding flags bindings)[i]?.getD []) bindings.length
    (f := walkBindingFlag) fun i hi => by
      obtain ⟨binding, hb⟩ : ∃ binding, bindings[i]? = some binding :=
        ⟨_, List.getElem?_eq_getElem hi⟩
      obtain ⟨flag, hf⟩ : ∃ flag, flags[i]? = some flag :=
        ⟨_, List.getElem?_eq_getElem (hlen ▸ hi)⟩
      have hnext : flags.take (i + 1) = flags.take i ++ [flag] := by
        rw [List.take_add_one, hf]
        rfl
      have hcode : (List.zipWith encodeBinding flags bindings)[i]?.getD [] =
          encodeBinding flag binding := by
        rw [List.getElem?_zipWith, hf, hb]
        rfl
      rw [hcode, hnext]
      exact reads_walkBindingFlag (hbindings i binding hb) i _ flag
  rw [List.take_zero, ← hlen, List.take_length, hlen, ← hzip, flatMap_range_getD, hzip] at hloop
  exact hloop

/-- The walk finds the flags a program was serialized with. -/
theorem bindingFlagBytes_encodeWith {ir : ComputeIR} {parsed : ParsedIR} {flags : List UInt8}
    (hparsed : ParserAccepted ir parsed) (hlen : flags.length = parsed.bindings.length) :
    bindingFlagBytes (encodeWith flags parsed) = flags := by
  have hschema : kSchema.length < 2 ^ 32 := by decide
  have hcount : (UInt32.ofNat parsed.bindings.length).toNat = parsed.bindings.length :=
    ofNat_toNat_of_le hparsed.binding_count (by decide)
  have hflags := reads_walkFlags hlen hparsed.bindings
  rw [← hcount] at hflags
  have hwalk : Reads walkBindingFlags (encodeBytes kSchema ++ (encodeBytes parsed.name ++
      ((parsed.scalarMode :: encodeFormat parsed.fixedFormat) ++
        (encodeU32 (UInt32.ofNat parsed.bindings.length) ++
          encodeBindings flags parsed.bindings)))) flags := by
    refine (reads_readBytes _ hschema).bind ?_
    refine (reads_readBytes _ hparsed.name_lt).bind ?_
    refine Reads.slice_bind _ rfl ?_
    exact (reads_readU32 _ (UInt32.ofNat parsed.bindings.length)).bind hflags
  have hrun := hwalk { bytes := encodeWith flags parsed }
    (encodeU32 (UInt32.ofNat parsed.nodes.length) ++ parsed.nodes.flatMap appendSerializedNode)
    (Nat.zero_le _) (by simp [Reader.rest, encodeWith, encodeHeader])
  rw [bindingFlagBytes, hrun]

/-- Flags below two are the ones the serializer writes. -/
theorem flagsOf_le_one {flags : List UInt8} {bindings : List ParsedBinding}
    (hflags : FlagsOf flags bindings) :
    flags = bindings.map floatingPointByte ↔ ∀ flag ∈ flags, flag ≤ 1 := by
  constructor
  · rintro rfl flag hflag
    obtain ⟨binding, -, rfl⟩ := List.mem_map.mp hflag
    unfold floatingPointByte
    split <;> decide
  · intro hle
    refine List.ext_getElem? fun i => ?_
    rw [List.getElem?_map]
    rcases hb : bindings[i]? with - | binding
    · have hi : bindings.length ≤ i := List.getElem?_eq_none_iff.mp hb
      exact List.getElem?_eq_none (hflags.length_eq ▸ hi)
    · obtain ⟨flag, hf, hparam⟩ := hflags.getElem? hb
      have hflag : flag = 0 ∨ flag = 1 := by
        have := UInt8.le_iff_toNat_le.mp (hle flag (List.mem_of_getElem? hf))
        simp only [← UInt8.toNat_inj]
        change flag.toNat = 0 ∨ flag.toNat = 1
        change flag.toNat ≤ 1 at this
        omega
      rw [hf, Option.map_some, floatingPointByte, hparam]
      rcases hflag with rfl | rfl <;> rfl

/-- **Accepted bytes are canonical exactly when every floating-point byte is zero or one**, and
two accepted byte strings like that with one parse are one byte string. -/
theorem parseComputeIR_canonical_iff {ir : ComputeIR} {bytes : List UInt8} {parsed : ParsedIR}
    (h : parseComputeIR ir bytes = Except.ok parsed) :
    (buildFusedCanonicalBytes parsed = bytes ↔ ∀ flag ∈ bindingFlagBytes bytes, flag ≤ 1) ∧
      ∀ ir' bytes', parseComputeIR ir' bytes' = Except.ok parsed →
        (∀ flag ∈ bindingFlagBytes bytes, flag ≤ 1) →
        (∀ flag ∈ bindingFlagBytes bytes', flag ≤ 1) → bytes' = bytes := by
  have key : ∀ ir' bytes', parseComputeIR ir' bytes' = Except.ok parsed →
      (buildFusedCanonicalBytes parsed = bytes' ↔ ∀ flag ∈ bindingFlagBytes bytes', flag ≤ 1) := by
    intro ir' bytes' h'
    obtain ⟨haccepted, flags, hflags, rfl⟩ := parse_inv h'
    have hwalk := bindingFlagBytes_encodeWith haccepted hflags.length_eq
    have hcanonical := bindingFlagBytes_encodeWith haccepted
      (flagsOf_canonical parsed.bindings).length_eq
    rw [hwalk, buildFusedCanonicalBytes_eq, ← flagsOf_le_one hflags]
    constructor
    · intro heq
      rw [← hwalk, ← heq, hcanonical]
    · intro heq
      rw [← heq]
  refine ⟨key ir bytes h, fun ir' bytes' h' hle hle' => ?_⟩
  rw [← (key ir' bytes' h').mpr hle', ← (key ir bytes h).mpr hle]

/-- A program that stores the constant five to a binding marked as floating point. -/
def storeFive : ParsedIR :=
  { scalarMode := 3
    bindings := [{ kind := kWriteBindingKind, numericMode := 3, name := [0x6f], elementBytes := 4,
                   floatingPointParam := true }]
    nodes := [{ op := .constant, lhs := 5 }, { op := .write, lhs := 1 }] }

def storeFiveIR : ComputeIR := { scalar := .lane32, domain := .i32, ok := true }

theorem parseComputeIR_canonical_iff_storeFive :
    parseComputeIR storeFiveIR (encodeWith [1] storeFive) = Except.ok storeFive ∧
      (buildFusedCanonicalBytes storeFive = encodeWith [1] storeFive ↔
        ∀ flag ∈ bindingFlagBytes (encodeWith [1] storeFive), flag ≤ 1) :=
  have h : parseComputeIR storeFiveIR (encodeWith [1] storeFive) = Except.ok storeFive := by
    decide
  ⟨h, (parseComputeIR_canonical_iff h).1⟩

/-- A flag byte of two is read as the flag byte one is: two byte strings for one program, and
the serializer gives back only one of them. -/
theorem parseComputeIR_flag_two :
    parseComputeIR storeFiveIR (encodeWith [2] storeFive) = Except.ok storeFive ∧
      parseComputeIR storeFiveIR (encodeWith [1] storeFive) = Except.ok storeFive ∧
      encodeWith [2] storeFive ≠ encodeWith [1] storeFive ∧
      buildFusedCanonicalBytes storeFive ≠ encodeWith [2] storeFive := by
  decide

end RunD
