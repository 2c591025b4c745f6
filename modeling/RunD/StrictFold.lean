/-
Whether a strict floating-point fold returns a canonical word.

Every strict addition does (`addBits_canonical`): a NaN sum is the canonical
NaN, a zero sum has the sign the policy prescribes, and nothing stands above
the format.  A fold inherits this from its last addition, so the question is
whether there is one: a graph without edges, and an ordered fold of a single
slot, hand the input word through untouched (`strictFold_canonical_iff`).
-/
import RunD.StrictAdd
import RunD.FoldTreeValue

namespace RunD

variable {F : Format}

/-! ### Canonical words -/

/-- A word the strict law admits as a result. -/
structure CanonicalWord (F : Format) (policy : StrictFloatReductionPolicy) (word : UInt64) :
    Prop where
  /-- The only NaN is the canonical one. -/
  nan : (decode word F).nan = true → word = F.canonicalNan
  /-- A zero is positive, unless the policy preserves negative zeros. -/
  zero : (decode word F).zero = true → (decode word F).sign = true →
    policy.signedZeroPolicy = .preserveOnlyWhenBothNegative
  /-- Nothing stands above the format. -/
  width : word.toNat < 2 ^ F.width

theorem Format.Lawful.decode_canonicalNan (hF : F.Lawful) :
    (decode F.canonicalNan F).zero = false ∧ F.canonicalNan.toNat < 2 ^ F.width := by
  have hpos := hF.fractionPos
  have hpow := Nat.two_pow_pos (F.fractionBits - 1)
  have hexp := Nat.two_pow_pos F.exponentBits
  have hhalf : 2 ^ F.fractionBits = 2 * 2 ^ (F.fractionBits - 1) := by
    rw [← pow_succ', Nat.sub_add_cancel hpos]
  have hword := hF.canonicalNan
  have hraw : F.rawExponent F.canonicalNan = F.exponentMax := by
    rw [Format.rawExponent, hword, mul_comm, Nat.mul_add_div (Nat.two_pow_pos _),
      Nat.div_eq_of_lt (by omega), add_zero, hF.exponentMax, Nat.mod_eq_of_lt (by omega)]
  refine ⟨by rw [hF.decode_eq, if_pos hraw], ?_⟩
  rw [hword, Format.width, pow_succ, pow_add]
  have : (2 ^ F.exponentBits - 1) * 2 ^ F.fractionBits + 2 ^ F.fractionBits =
      2 ^ F.exponentBits * 2 ^ F.fractionBits := by
    rw [← Nat.succ_mul]
    congr 1
    omega
  omega

/-- The fields of an infinity. -/
theorem Format.Lawful.decode_infinity (hF : F.Lawful) (sign : Bool) :
    (decode (infinity sign F) F).nan = false ∧ (decode (infinity sign F) F).zero = false ∧
      (infinity sign F).toNat < 2 ^ F.width := by
  have he : F.exponentMax < 2 ^ F.exponentBits := by
    rw [hF.exponentMax]
    have := Nat.two_pow_pos F.exponentBits
    omega
  have hraw := hF.rawExponent_compose sign he 0
  have hfrac := hF.fraction_compose sign he 0
  rw [UInt64.toNat_zero, Nat.zero_mod] at hfrac
  refine ⟨?_, ?_, hF.compose_lt sign he 0⟩
  · rw [infinity, hF.decode_eq, if_pos hraw, hfrac]
    rfl
  · rw [infinity, hF.decode_eq, if_pos hraw]

/-- The fields of a zero. -/
theorem Format.Lawful.decode_zero (hF : F.Lawful) (sign : Bool) :
    (decode (zero sign F) F).nan = false ∧ (decode (zero sign F) F).sign = sign ∧
      (zero sign F).toNat < 2 ^ F.width := by
  have he : 0 < 2 ^ F.exponentBits := Nat.two_pow_pos _
  have hraw := hF.rawExponent_compose sign he 0
  have hsign := hF.signBit_compose sign he 0
  have hmax := hF.exponentMax_ge
  have hdecode : decode (zero sign F) F = _ := hF.decode_eq (zero sign F)
  rw [zero] at hdecode ⊢
  rw [hraw, if_neg (by omega), if_pos rfl, hsign] at hdecode
  rw [hdecode]
  refine ⟨rfl, ?_, hF.compose_lt sign he 0⟩
  cases sign <;> rfl

/-- A nonzero multiple of the least subnormal does not round to zero. -/
theorem RoundsNearestEven.ne_zero (hF : F.Lawful) {x : ℤ} (hx : x ≠ 0) {r : UInt64}
    (hr : RoundsNearestEven F (x * F.leastSubnormal) r) : (decode r F).zero = false := by
  unfold RoundsNearestEven at hr
  split at hr
  · rw [hr]
    exact (hF.decode_infinity _).2.1
  · obtain ⟨hfin, -, hnear, -⟩ := hr
    by_contra hzero
    rw [Bool.not_eq_false] at hzero
    -- the least subnormal of the same sign is nearer than zero
    have hpow : 2 ≤ 2 ^ F.fractionBits := by
      have := Nat.pow_le_pow_right (show 0 < 2 by decide) hF.fractionPos
      omega
    have hraw : 0 < F.exponentMax := by
      have := hF.exponentMax_ge
      omega
    have hone : 1 < 2 ^ F.fractionBits := by omega
    obtain ⟨hyfin, -, hulps, -⟩ := hF.compose_finite (decide (x < 0)) (m := 1) (k := 0) hraw hone
      (Or.inl ⟨rfl, rfl, rfl⟩)
    have hle := hnear _ hyfin
    rw [(hF.value_eq_zero_iff hfin).mpr hzero, hF.value_eq hyfin, hulps, sub_zero, ← sub_mul,
      abs_mul, abs_mul, mul_le_mul_iff_left₀ (abs_pos.mpr (leastSubnormal_pos F).ne')] at hle
    rcases lt_or_gt_of_ne hx with hneg | hpos
    · rw [decide_eq_true hneg, if_pos rfl] at hle
      have h : |x| ≤ |x + 1| := by
        have : ((|x| : ℤ) : ℚ) ≤ ((|x + 1| : ℤ) : ℚ) := by
          push_cast
          simpa using hle
        exact_mod_cast this
      rw [abs_of_neg hneg, abs_of_nonpos (by omega)] at h
      omega
    · rw [decide_eq_false (by omega), if_neg (by simp)] at hle
      have h : |x| ≤ |x - 1| := by
        have : ((|x| : ℤ) : ℚ) ≤ ((|x - 1| : ℤ) : ℚ) := by
          push_cast
          simpa using hle
        exact_mod_cast this
      rw [abs_of_pos hpos, abs_of_nonneg (by omega)] at h
      omega

/-! ### The strict addition is canonical -/

/-- The sign the policy prescribes for a zero sum of `a` and `b`. -/
def negativeZeroSum (F : Format) (policy : StrictFloatReductionPolicy) (a b : UInt64) : Bool :=
  policy.signedZeroPolicy == .preserveOnlyWhenBothNegative &&
    (decode a F).zero && (decode b F).zero && (decode a F).sign && (decode b F).sign

/-- What a strict sum can be: the canonical NaN, an infinity, the zero the policy prescribes, or a
nonzero finite word of the format. -/
theorem addBits_cases (hF : F.Lawful) (policy : StrictFloatReductionPolicy) (a b : UInt64) :
    addBits a b F policy = F.canonicalNan ∨ (∃ sign, addBits a b F policy = infinity sign F) ∨
      addBits a b F policy = zero (negativeZeroSum F policy a b) F ∨
      ((decode (addBits a b F policy) F).nan = false ∧
        (decode (addBits a b F policy) F).zero = false ∧
        (addBits a b F policy).toNat < 2 ^ F.width) := by
  have hsum := addBits_ieee hF policy a b
  by_cases hnan : (decode a F).nan ∨ (decode b F).nan ∨
      ((decode a F).inf ∧ (decode b F).inf ∧ (decode a F).sign ≠ (decode b F).sign)
  · exact Or.inl (hsum.nan hnan)
  push Not at hnan
  obtain ⟨hna, hnb, hsigns⟩ := hnan
  by_cases hia : (decode a F).inf = true
  · exact Or.inr (Or.inl ⟨_, hsum.inf_left hia hnb (hsigns hia)⟩)
  by_cases hib : (decode b F).inf = true
  · exact Or.inr (Or.inl ⟨_, hsum.inf_right hib hna fun h => absurd h hia⟩)
  rw [ne_eq, Bool.not_eq_true] at hna hnb
  rw [Bool.not_eq_true] at hia hib
  have ha : (decode a F).Finite := ⟨hna, hia⟩
  have hb : (decode b F).Finite := ⟨hnb, hib⟩
  by_cases h0 : F.value a + F.value b = 0
  · exact Or.inr (Or.inr (Or.inl (hsum.zero ha hb h0)))
  · have hrounds := hsum.finite ha hb h0
    have hulps : F.value a + F.value b =
        (((decode a F).ulps F + (decode b F).ulps F : ℤ) : ℚ) * F.leastSubnormal := by
      rw [hF.value_eq ha, hF.value_eq hb]
      push_cast
      ring
    have hne : (decode a F).ulps F + (decode b F).ulps F ≠ 0 := by
      intro h
      rw [hulps, h, Int.cast_zero, zero_mul] at h0
      exact h0 rfl
    rw [hulps] at hrounds
    have hzero := hrounds.ne_zero hF hne
    unfold RoundsNearestEven at hrounds
    split at hrounds
    · exact Or.inr (Or.inl ⟨_, hrounds⟩)
    · exact Or.inr (Or.inr (Or.inr ⟨hrounds.1.1, hzero, hrounds.2.1⟩))

/-- **Every strict sum is canonical**, and a zero sum is negative exactly when the policy
preserves the sign of its two negative zeros. -/
theorem addBits_canonical (hF : F.Lawful) (policy : StrictFloatReductionPolicy) (a b : UInt64) :
    CanonicalWord F policy (addBits a b F policy) ∧
      ((decode (addBits a b F policy) F).zero = true →
        (decode (addBits a b F policy) F).sign = negativeZeroSum F policy a b) := by
  rcases addBits_cases hF policy a b with h | ⟨sign, h⟩ | h | ⟨hnan, hzero, hlt⟩
  · obtain ⟨hzero, hlt⟩ := hF.decode_canonicalNan
    rw [h, hzero]
    exact ⟨⟨fun _ => rfl, by rw [hzero]; simp, hlt⟩, by simp⟩
  · obtain ⟨hnan, hzero, hlt⟩ := hF.decode_infinity sign
    rw [h, hzero]
    exact ⟨⟨by rw [hnan]; simp, by rw [hzero]; simp, hlt⟩, by simp⟩
  · obtain ⟨hnan, hsign, hlt⟩ := hF.decode_zero (negativeZeroSum F policy a b)
    rw [h, hsign]
    refine ⟨⟨by rw [hnan]; simp, fun _ hneg => ?_, hlt⟩, fun _ => rfl⟩
    rw [hsign, negativeZeroSum] at hneg
    simp only [Bool.and_eq_true, beq_iff_eq] at hneg
    exact hneg.1.1.1.1
  · rw [hzero]
    exact ⟨⟨by rw [hnan]; simp, by rw [hzero]; simp, hlt⟩, by simp⟩

/-! ### The words of a strict fold -/

/-- The format of a strict operation. -/
def strictFormat : FoldOperation → Format
  | .strictFloat32Add => float32Format
  | _ => float64Format

/-- A word as the addition of an operation sees it. -/
def strictOperand : FoldOperation → UInt64 → UInt64
  | .strictFloat32Add, word => word &&& 0xFFFFFFFF
  | _, word => word

/-- The word a strict fold may return under its policy. -/
def CanonicalFoldWord (operation : FoldOperation) (policy : StrictFloatReductionPolicy)
    (word : UInt64) : Prop :=
  CanonicalWord (strictFormat operation) policy word

theorem combine_strict {operation : FoldOperation} (h : isFloatOperation operation = true)
    (a b : UInt64) (policy : StrictFloatReductionPolicy) :
    combineFoldValues operation a b policy = addBits (strictOperand operation a)
      (strictOperand operation b) (strictFormat operation) policy := by
  cases operation with
  | strictFloat32Add => rfl
  | strictFloat64Add => rfl
  | _ => simp [isFloatOperation] at h

theorem strictFormat_lawful (operation : FoldOperation) : (strictFormat operation).Lawful := by
  cases operation with
  | strictFloat32Add => exact float32Format_lawful
  | _ => exact float64Format_lawful

/-- The two operands of the last edge, as the run finds them. -/
def lastOperands (graph : FoldGraphView) (values : List UInt64) : Option (UInt64 × UInt64) :=
  graph.edges.getLast?.map fun edge =>
    let memory := memoryAfter graph values (graph.edges.length - 1)
    (memory edge.leftSlot.toNat,
      if edge.rightIsPadding then edge.paddingValue else memory edge.rightSlot.toNat)

section Accepted

variable {graph : FoldGraphView} {required : UInt32} (hacc : Accepted graph required)
  {values : List UInt64} (hvalues : values.length = graph.partitionCount.toNat)
include hacc

/-- With an edge, the value is the sum of the last edge's operands. -/
theorem graphValue_of_edges {left right : UInt64}
    (h : lastOperands graph values = some (left, right)) :
    graphValue graph values =
      combineFoldValues graph.operation left right graph.strictFloatReduction := by
  rw [lastOperands, Option.map_eq_some_iff] at h
  obtain ⟨edge, hedge, heq⟩ := h
  rw [Prod.mk.injEq] at heq
  obtain ⟨rfl, rfl⟩ := heq
  have hlen : 0 < graph.edges.length := List.length_pos_of_mem (List.mem_of_getLast? hedge)
  have hfinal := hacc.final
  rw [FoldGraphView.finalSlotAfter, List.take_length, hedge, Option.map_some, Option.some_or,
    Option.some.injEq] at hfinal
  have hlast : graph.edges[graph.edges.length - 1]? = some edge := by
    rw [← List.getLast?_eq_getElem?]
    exact hedge
  have hstep : memoryAfter graph values (graph.edges.length - 1 + 1) = _ := memoryAfter_succ hlast
  rw [Nat.sub_add_cancel hlen] at hstep
  rw [graphValue, hstep, ← hfinal, Function.update_self, edgeValue]

include hvalues

/-- Without an edge, the value is the word of the last partition. -/
theorem graphValue_of_no_edges (h : graph.edges = []) :
    values.getLast? = some (graphValue graph values) := by
  have hfacts := shapeFacts hacc.shape
  have hslots := hfacts.slots_length
  have hpos := hfacts.partitionCount_pos
  obtain ⟨m, hm⟩ : ∃ m, graph.slots.length = m + 1 := ⟨graph.slots.length - 1, by omega⟩
  have hfinal := hacc.final
  rw [FoldGraphView.finalSlotAfter, h, List.length_nil, List.take_nil, List.getLast?_nil,
    Option.map_none, Option.none_or, List.getLast?_eq_getElem?] at hfinal
  have hitems : graph.partitionFoldSlots.items.length = m + 1 := by
    rw [← hm, FoldGraphView.slots, List.length_map]
  rw [hitems, Nat.add_sub_cancel] at hfinal
  have hslot := slots_getElem? hfinal
  have hvalue := List.getElem?_eq_getElem (show m < values.length by omega)
  rw [List.getLast?_eq_getElem?, show values.length - 1 = m by omega, hvalue, graphValue, h,
    List.length_nil, memoryAfter, hm, partitionMemory, hslot, hvalue, Option.some.injEq]
  show values[m] = Function.update (partitionMemory graph values m) graph.finalSlot.toNat values[m]
    graph.finalSlot.toNat
  rw [Function.update_self]

end Accepted

/-! ### Which folds are canonical -/

/-- A strict graph fold is canonical exactly when it adds or its input word is canonical. -/
theorem foldGraphReduce_canonical {graph : FoldGraphView} {values scratch : List UInt64}
    {result : FoldResult} {left : Scratch} (hfloat : isFloatOperation graph.operation = true)
    (h : foldGraphReduce graph values scratch = Except.ok (result, left)) :
    (CanonicalFoldWord graph.operation graph.strictFloatReduction result.value ↔
      graph.reductionEdges.count ≠ 0 ∨ ∃ word, values.getLast? = some word ∧
        CanonicalFoldWord graph.operation graph.strictFloatReduction word) ∧
    ∀ a b, lastOperands graph values = some (a, b) →
      (decode result.value (strictFormat graph.operation)).zero = true →
      (decode result.value (strictFormat graph.operation)).sign =
        negativeZeroSum (strictFormat graph.operation) graph.strictFloatReduction
          (strictOperand graph.operation a) (strictOperand graph.operation b) := by
  obtain ⟨required, hacc, hvalues, hvalue⟩ := foldGraphReduce_inv h
  have hlen := (shapeFacts hacc.shape).edges_length
  have hlast : ∀ a b, lastOperands graph values = some (a, b) → result.value =
      addBits (strictOperand graph.operation a) (strictOperand graph.operation b)
        (strictFormat graph.operation) graph.strictFloatReduction := fun a b hab => by
    rw [hvalue, graphValue_of_edges hacc hab, combine_strict hfloat]
  have hadd := fun a b => addBits_canonical (strictFormat_lawful graph.operation)
    graph.strictFloatReduction (strictOperand graph.operation a) (strictOperand graph.operation b)
  refine ⟨?_, fun a b hab => by rw [hlast a b hab]; exact (hadd a b).2⟩
  by_cases hedges : graph.edges = []
  · have hcount : graph.reductionEdges.count = 0 := by
      rw [hedges, List.length_nil] at hlen
      exact UInt32.toNat_inj.mp hlen.symm
    have hword := graphValue_of_no_edges hacc hvalues hedges
    rw [hvalue, hword]
    simp [hcount]
  · have hcount : graph.reductionEdges.count ≠ 0 := by
      intro h0
      rw [h0] at hlen
      exact hedges (List.length_eq_zero_iff.mp hlen)
    obtain ⟨⟨a, b⟩, hab⟩ : ∃ p, lastOperands graph values = some p := by
      obtain ⟨edge, hedge⟩ : ∃ edge, graph.edges.getLast? = some edge :=
        ⟨_, List.getLast?_eq_some_getLast hedges⟩
      exact ⟨_, by rw [lastOperands, hedge, Option.map_some]⟩
    refine iff_of_true ?_ (Or.inl hcount)
    rw [hlast a b hab]
    exact (hadd a b).1

/-- A successful ordered fold is empty, or a successful fold of the graph built for its values. -/
theorem foldStrictOrderedSlots_inv {values : List UInt64} {operation : FoldOperation}
    {policy : StrictFloatReductionPolicy} {result : FoldResult}
    (h : foldStrictOrderedSlots values operation policy = Except.ok result) :
    values = [] ∧ result.value = 0 ∨
      ∃ build built reduced, buildFoldGraph {} (UInt32.ofNat values.length) operation policy
          .allowGrowth = Except.ok (build, built) ∧
        foldGraphReduceSlots (viewFoldGraph built) values Vec.empty .allowGrowth =
          Except.ok reduced ∧ result.value = reduced.1.value := by
  simp only [foldStrictOrderedSlots, bind_eq_ok, require_eq_ok, exists_const] at h
  obtain ⟨-, -, h⟩ := h
  split at h
  · next hempty =>
    rw [pure_eq_ok] at h
    exact Or.inl ⟨List.isEmpty_iff.mp hempty, by rw [← h]⟩
  · simp only [bind_eq_ok, pure_eq_ok, Checked.mapReject_eq_ok] at h
    obtain ⟨⟨build, built⟩, hbuild, reduced, hreduce, hresult⟩ := h
    exact Or.inr ⟨build, built, reduced, hbuild, hreduce, by rw [← hresult]⟩

theorem treeEdgeCount_eq_zero {n : Nat} : treeEdgeCount n = 0 ↔ n < 2 := by
  constructor
  · intro h
    by_contra hge
    rw [treeEdgeCount_of_ge (by omega)] at h
    omega
  · exact treeEdgeCount_of_lt

theorem canonicalFoldWord_zero (operation : FoldOperation) (policy : StrictFloatReductionPolicy) :
    CanonicalFoldWord operation policy 0 := by
  have hdecode : (decode 0 (strictFormat operation)).nan = false ∧
      (decode 0 (strictFormat operation)).sign = false := by
    have hformat : strictFormat operation = float32Format ∨
        strictFormat operation = float64Format := by
      cases operation <;> simp [strictFormat]
    rcases hformat with h | h
    · rw [h]
      decide
    · rw [h]
      decide
  exact ⟨by rw [hdecode.1]; simp, by rw [hdecode.2]; simp, Nat.two_pow_pos _⟩

/-- An ordered fold is canonical unless it is of one value that is not. -/
theorem foldStrictOrderedSlots_canonical {values : List UInt64} {operation : FoldOperation}
    {policy : StrictFloatReductionPolicy} {result : FoldResult}
    (hfloat : isFloatOperation operation = true)
    (h : foldStrictOrderedSlots values operation policy = Except.ok result) :
    CanonicalFoldWord operation policy result.value ↔
      values.length ≠ 1 ∨ ∃ word, values = [word] ∧ CanonicalFoldWord operation policy word := by
  rcases foldStrictOrderedSlots_inv h with ⟨rfl, hvalue⟩ | ⟨build, built, reduced, hb, hr, hvalue⟩
  · rw [hvalue]
    exact iff_of_true (canonicalFoldWord_zero operation policy) (Or.inl (by simp))
  · obtain ⟨result', left⟩ := reduced
    obtain ⟨hallowed, -, hlayout⟩ := buildFoldGraph_layout hb
    obtain ⟨hplan, -⟩ := admitPlan_facts hallowed
    obtain ⟨slots, hrun⟩ := foldGraphReduceSlots_inv hr
    obtain ⟨required, hacc, hvalues, -⟩ := foldGraphReduce_inv hrun
    have hop : (viewFoldGraph built).operation = operation := hlayout.operation
    have hpolicy : (viewFoldGraph built).strictFloatReduction = policy :=
      hlayout.strictFloatReduction
    have hcount : (viewFoldGraph built).partitionCount.toNat =
        (UInt32.ofNat values.length).toNat := congrArg UInt32.toNat hlayout.partitionCount
    -- one value is one partition, and one partition is no edge
    have hedges : (viewFoldGraph built).reductionEdges.count ≠ 0 ↔ values.length ≠ 1 := by
      have hlen := (shapeFacts hacc.shape).edges_length
      have hpos : 0 < (UInt32.ofNat values.length).toNat := hplan.pos
      rw [view_edges hplan hlayout, length_treeEdges] at hlen
      have hzero : (viewFoldGraph built).reductionEdges.count = 0 ↔
          (viewFoldGraph built).reductionEdges.count.toNat = 0 :=
        ⟨fun h => by rw [h]; rfl, fun h => UInt32.toNat_inj.mp h⟩
      have htree := treeEdgeCount_eq_zero (n := (UInt32.ofNat values.length).toNat)
      rw [show (UInt32.ofNat values.length).toNat = values.length by omega] at htree hpos
      rw [ne_eq, hzero, ← hlen, not_iff_not]
      show treeEdgeCount (UInt32.ofNat values.length).toNat = 0 ↔ values.length = 1
      rw [show (UInt32.ofNat values.length).toNat = values.length by omega, htree]
      omega
    have hcanonical := (foldGraphReduce_canonical (by rw [hop]; exact hfloat) hrun).1
    rw [hop, hpolicy, hedges] at hcanonical
    rw [hvalue, hcanonical]
    by_cases h1 : values.length = 1
    · obtain ⟨word, rfl⟩ := List.length_eq_one_iff.mp h1
      simp
    · exact iff_of_true (Or.inl h1) (Or.inl h1)

/-- **When a strict fold returns a canonical word.**  A fold over a graph does when the graph has
an edge, and its zero then has the sign the policy prescribes for the operands of the last
addition; a graph without edges returns the word of its last partition as it came.  An ordered
fold does unless it is of one value that is not canonical itself. -/
theorem strictFold_canonical_iff (graph : FoldGraphView) (values : List UInt64)
    (operation : FoldOperation) (policy : StrictFloatReductionPolicy) :
    (isFloatOperation graph.operation = true → ∀ scratch result left,
      foldGraphReduce graph values scratch = Except.ok (result, left) →
      (CanonicalFoldWord graph.operation graph.strictFloatReduction result.value ↔
        graph.reductionEdges.count ≠ 0 ∨ ∃ word, values.getLast? = some word ∧
          CanonicalFoldWord graph.operation graph.strictFloatReduction word) ∧
      ∀ a b, lastOperands graph values = some (a, b) →
        (decode result.value (strictFormat graph.operation)).zero = true →
        (decode result.value (strictFormat graph.operation)).sign =
          negativeZeroSum (strictFormat graph.operation) graph.strictFloatReduction
            (strictOperand graph.operation a) (strictOperand graph.operation b)) ∧
    (isFloatOperation graph.operation = true → ∀ scratch allocation result left,
      foldGraphReduceSlots graph values scratch allocation = Except.ok (result, left) →
      (CanonicalFoldWord graph.operation graph.strictFloatReduction result.value ↔
        graph.reductionEdges.count ≠ 0 ∨ ∃ word, values.getLast? = some word ∧
          CanonicalFoldWord graph.operation graph.strictFloatReduction word)) ∧
    (isFloatOperation operation = true → ∀ result,
      foldStrictOrderedSlots values operation policy = Except.ok result →
      (CanonicalFoldWord operation policy result.value ↔
        values.length ≠ 1 ∨
          ∃ word, values = [word] ∧ CanonicalFoldWord operation policy word)) := by
  refine ⟨fun hfloat scratch result left h => foldGraphReduce_canonical hfloat h,
    fun hfloat scratch allocation result left h => ?_,
    fun hfloat result h => foldStrictOrderedSlots_canonical hfloat h⟩
  obtain ⟨slots, hrun⟩ := foldGraphReduceSlots_inv h
  exact (foldGraphReduce_canonical hfloat hrun).1

/-- Two values, one of them a signalling NaN. -/
theorem strictFold_canonical_iff_nan :
    ∃ result, foldStrictOrderedSlots [0x7FF0000000000001, 0] .strictFloat64Add
        strictFloat64ReductionPolicy = Except.ok result ∧
      CanonicalFoldWord .strictFloat64Add strictFloat64ReductionPolicy result.value :=
  ⟨foldPass 0x7FF8000000000000 2 .strictFloat64Add, rfl,
    ((strictFold_canonical_iff pairGraph [0x7FF0000000000001, 0] .strictFloat64Add
      strictFloat64ReductionPolicy).2.2 rfl _ rfl).mpr (Or.inl (by decide))⟩

/-- One value: a NaN that is not canonical, a negative zero, and a binary32 word with bits above
the format all come back as they went in. -/
theorem foldStrictOrderedSlots_single_raw :
    foldStrictOrderedSlots [0x7FF0000000000001] .strictFloat64Add strictFloat64ReductionPolicy =
        Except.ok (foldPass 0x7FF0000000000001 1 .strictFloat64Add) ∧
      ¬ CanonicalFoldWord .strictFloat64Add strictFloat64ReductionPolicy 0x7FF0000000000001 ∧
    foldStrictOrderedSlots [0x8000000000000000] .strictFloat64Add strictFloat64ReductionPolicy =
        Except.ok (foldPass 0x8000000000000000 1 .strictFloat64Add) ∧
      ¬ CanonicalFoldWord .strictFloat64Add strictFloat64ReductionPolicy 0x8000000000000000 ∧
    foldStrictOrderedSlots [0x100000000] .strictFloat32Add strictFloat32ReductionPolicy =
        Except.ok (foldPass 0x100000000 1 .strictFloat32Add) ∧
      ¬ CanonicalFoldWord .strictFloat32Add strictFloat32ReductionPolicy 0x100000000 := by
  refine ⟨rfl, fun h => ?_, rfl, fun h => ?_, rfl, fun h => ?_⟩
  · exact absurd (h.nan (by decide)) (by decide)
  · exact absurd (h.zero (by decide) (by decide)) (by decide)
  · exact absurd h.width (by decide)

end RunD
