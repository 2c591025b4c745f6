/-
Fusing a chain of maps keeps what it computes.

For one element, the chain runs its programs one after the other, each on its own
buffers and on the one that the program before wrote (`chainBuffers`).  The fused
program runs on the buffers that are left (`fusedBuffers`).  Going through the
nodes, the register of every node has the value of the one that its number was
mapped to, and the number that is carried from one map to the next leads to the
value that was written (`Spliced`).  So both write the same, wherever a map loads
what the one before stored as it was (`LinkAgrees`).
-/
import RunD.FusionBuild

namespace RunD

/-! ### Chains -/

section Chain

variable {Lane Cell : Type} (machine : LaneMachine Lane Cell) (external : Nat → Nat → Nat → Cell)
  (sources : List FusedSource)

/-- What a program that writes once wrote. -/
def LaneMachine.writtenCell (run : LaneRun Lane Cell) : Cell :=
  run.writes.head?.elim (machine.store 0 machine.zero) Prod.snd

/-- The buffers of the programs of a chain: a program reads what the one before it wrote, and has
all its other buffers from outside. -/
def chainBuffers : Nat → Nat → Nat → Cell
  | 0 => external 0
  | index + 1 => fun binding element =>
      match sources[index]?, sources[index + 1]? with
      | some writer, some reader =>
          if binding = reader.intermediateReadBinding then
            machine.writtenCell (runMap machine (chainBuffers index) element writer.parsed)
          else external (index + 1) binding element
      | _, _ => external (index + 1) binding element

/-- The program with this index on one element, as a part of the chain. -/
def runSource (index element : Nat) (source : FusedSource) : LaneRun Lane Cell :=
  runMap machine (chainBuffers machine external sources index) element source.parsed

/-- The buffers that are left to the fused program. -/
def fusedBuffers (place : Nat) : Nat → Cell :=
  ((fusedPlaces sources)[place]?).elim (external 0 0) fun origin => external origin.1 origin.2

/-- A program reads what the one before it wrote, element by element and in no other way, and what
it loads is the value that was stored, with its fraction bits. -/
structure LinkAgrees (element index : Nat) (writer reader : FusedSource) : Prop where
  direct : ∀ node ∈ reader.parsed.nodes,
    (node.op = .readUniform → node.aux.toNat ≠ reader.intermediateReadBinding) ∧
      (node.op = .readAt → node.lhs.toNat ≠ reader.intermediateReadBinding ∧
        node.aux.toNat ≠ reader.intermediateReadBinding)
  reload : ∀ write ∈ writer.parsed.nodes, write.op = .write → ∀ value,
    (runSource machine external sources index element writer).values[write.lhs.toNat - 1]? =
      some value → ∀ read ∈ reader.parsed.nodes, read.op = .read →
    read.aux.toNat = reader.intermediateReadBinding →
    ({ fraction := read.fixedFormat.fractionBits
       lane := machine.load (machine.writtenCell
        (runSource machine external sources index element writer)) } : LaneValue Lane) = value

/-- All programs of a chain agree with the ones before them. -/
def ChainAgrees (element : Nat) : Prop :=
  ∀ index writer reader, sources[index]? = some writer → sources[index + 1]? = some reader →
    LinkAgrees machine external sources element index writer reader

/-- The fused program writes what the last program of the chain writes. -/
def SameWrite (fused own : Nat × Cell) : Prop :=
  (fusedPlaces sources)[fused.1]? = some (sources.length - 1, own.1) ∧ fused.2 = own.2

end Chain

/-! ### Sources that are admitted -/

/-- What is known of a source. -/
structure AdmittedSource (count index : Nat) (source : FusedSource) : Prop where
  references : ∀ i node, source.parsed.nodes[i]? = some node → NodeReferences source.parsed i node
  few : source.parsed.nodes.length ≤ kMaxComputeNodeCount
  once : index + 1 ≠ count → writeNodeCount source.parsed.nodes = 1

theorem admitComputeInput_spec {ir : ComputeIR} {reason : String} {api : ComputeApi}
    {parsed : ParsedIR} (h : admitComputeInput ir reason api = Except.ok parsed) :
    (∀ i node, parsed.nodes[i]? = some node → NodeReferences parsed i node) ∧
      parsed.nodes.length ≤ kMaxComputeNodeCount := by
  rw [admitComputeInput, bind_eq_ok] at h
  obtain ⟨_, -, hadmit⟩ := h
  obtain ⟨hparse, hrefs⟩ := (safely_parseAndValidate ir ir.canonicalBytes).post hadmit
  exact ⟨hrefs, ((safely_parseComputeIR ir ir.canonicalBytes).post hparse).wellReferenced.count_le⟩

theorem admitSources_spec {chain : List (ComputeIR × String)} {graph : Graph}
    {policy : List FusionNodePolicy} {api : ComputeApi} {sources : List FusedSource}
    (h : admitSources chain graph policy api = Except.ok sources) :
    sources.length = chain.length ∧ ∀ index source, sources[index]? = some source →
      AdmittedSource chain.length index source := by
  refine forRange_inv (P := fun k sources => sources.length = k ∧
    ∀ index source, sources[index]? = some source → AdmittedSource chain.length index source)
    ⟨rfl, fun _ _ hnone => absurd hnone (by simp)⟩ ?_ h
  rintro k sources next - ⟨hlength, hadmitted⟩ hstep
  simp only [admitSource, bind_eq_ok, require_eq_ok, fetch_eq_ok, pure_eq_ok] at hstep
  obtain ⟨⟨ir, reason⟩, -, node, -, _, -, _, -, parsed, hparsed, _, hwrites, _, -, _, -, binding, -,
    rfl⟩ := hstep
  obtain ⟨hrefs, hfew⟩ := admitComputeInput_spec hparsed
  refine ⟨by rw [List.length_append, hlength, List.length_singleton], fun index source hget => ?_⟩
  rcases Nat.lt_or_ge index k with hold | hnew
  · rw [List.getElem?_append_left (by omega)] at hget
    exact hadmitted index source hget
  · rw [List.getElem?_append_right (by omega), List.getElem?_singleton] at hget
    split at hget
    · obtain rfl : index = k := by omega
      cases hget
      refine ⟨hrefs, hfew, fun hne => ?_⟩
      have hone := hwrites.2.2.2.resolve_left hne
      exact hwrites.2.2.1.symm.trans hone
    · cases hget

/-! ### Bindings -/

theorem take_succ_of_getElem? {α : Type} {xs : List α} {k : Nat} {a : α} (h : xs[k]? = some a) :
    xs.take (k + 1) = xs.take k ++ [a] := by
  rw [List.take_add_one, h, Option.toList_some]

section Bindings

variable {sources : List FusedSource}

theorem bindingOffset_succ {index : Nat} {source : FusedSource}
    (h : sources[index]? = some source) :
    bindingOffset sources (index + 1) =
      bindingOffset sources index + source.parsed.bindings.length := by
  rw [bindingOffset, bindingOffset, take_succ_of_getElem? h, List.map_append, List.sum_append,
    List.map_singleton, List.sum_singleton]

theorem bindingOffset_le {index later : Nat} (h : index ≤ later) :
    bindingOffset sources index ≤ bindingOffset sources later := by
  obtain ⟨more, rfl⟩ := Nat.exists_eq_add_of_le h
  rw [bindingOffset, bindingOffset, List.take_add, List.map_append, List.sum_append]
  exact Nat.le_add_right _ _

/-- Two bindings do not share a place in the table of numbers. -/
theorem bindingOffset_inj {index index' place place' : Nat} {source source' : FusedSource}
    (hsource : sources[index]? = some source) (hsource' : sources[index']? = some source')
    (hplace : place < source.parsed.bindings.length)
    (hplace' : place' < source'.parsed.bindings.length)
    (h : bindingOffset sources index + place = bindingOffset sources index' + place') :
    index = index' ∧ place = place' := by
  have hnext := bindingOffset_succ hsource
  have hnext' := bindingOffset_succ hsource'
  rcases Nat.lt_trichotomy index index' with hlt | rfl | hgt
  · have hle := @bindingOffset_le sources (index + 1) index' hlt
    omega
  · exact ⟨rfl, by omega⟩
  · have hle := @bindingOffset_le sources (index' + 1) index hgt
    omega

/-- A binding that some kind keeps is in the order of the fused ones. -/
theorem mem_fusedPlaces {index place : Nat} {source : FusedSource} {binding : ParsedBinding}
    (hsource : sources[index]? = some source)
    (hbinding : source.parsed.bindings[place]? = some binding)
    (hkind : binding.kind ∈ [kParamBindingKind, kReadBindingKind, kWriteBindingKind])
    (hkeeps : keepsBinding sources.length binding.kind source index binding place = true) :
    (index, place) ∈ fusedPlaces sources := by
  refine List.mem_flatMap.mpr ⟨binding.kind, hkind, List.mem_flatMap.mpr ⟨(source, index), ?_, ?_⟩⟩
  · exact List.mem_zipIdx_iff_getElem?.mpr hsource
  · refine List.mem_map.mpr ⟨(binding, place), List.mem_filter.mpr ⟨?_, hkeeps⟩, rfl⟩
    exact List.mem_zipIdx_iff_getElem?.mpr hbinding

/-- What the table of numbers says once some bindings are added. -/
structure Numbered (sources : List FusedSource) (seen : List (Nat × Nat)) (map : FusedBindingMap) :
    Prop where
  length : map.bindings.length = seen.length
  bindings : ∀ (k : Nat) (origin : Nat × Nat), seen[k]? = some origin →
    ∃ (source : FusedSource) (binding : ParsedBinding),
    sources[origin.1]? = some source ∧ source.parsed.bindings[origin.2]? = some binding ∧
      map.bindings[k]? = some (prefixedBinding origin.1 binding)
  indices : ∀ origin ∈ seen, ∃ k : Nat, seen[k]? = some origin ∧
    map.indices[bindingOffset sources origin.1 + origin.2]? = some (UInt32.ofNat k)

/-- One more binding is added. -/
theorem Numbered.addBinding {seen : List (Nat × Nat)} {map next : FusedBindingMap}
    (h : Numbered sources seen map) {place : Nat × Nat}
    (hrun : RunD.addBinding sources place map = Except.ok next) :
    Numbered sources (seen ++ [place]) next := by
  simp only [RunD.addBinding, bind_eq_ok, fetch_eq_ok, assign_eq_ok, pure_eq_ok] at hrun
  obtain ⟨source, hsource, binding, hbinding, _, ⟨hlt, rfl⟩, rfl⟩ := hrun
  have hlast : (seen ++ [place])[seen.length]? = some place := List.getElem?_concat_length
  refine ⟨by simp [h.length], fun k origin hget => ?_, fun origin hmem => ?_⟩
  · rcases Nat.lt_or_ge k seen.length with hold | hnew
    · rw [List.getElem?_append_left hold] at hget
      obtain ⟨source', binding', hs, hb, hthen⟩ := h.bindings k origin hget
      exact ⟨source', binding', hs, hb,
        by rwa [List.getElem?_append_left (by rw [h.length]; omega)]⟩
    · have hk := (List.getElem?_eq_some_iff.mp hget).1
      rw [List.length_append, List.length_singleton] at hk
      obtain rfl : k = seen.length := by omega
      rw [hlast, Option.some.injEq] at hget
      subst hget
      refine ⟨source, binding, hsource, hbinding, ?_⟩
      rw [← h.length]
      exact List.getElem?_concat_length
  · -- the number of another binding is left alone, and a binding that came before has a new one
    by_cases hsame : origin = place
    · subst hsame
      refine ⟨seen.length, hlast, ?_⟩
      rw [← h.length]
      exact List.getElem?_set_self hlt
    · have hin : origin ∈ seen := by
        rcases List.mem_append.mp hmem with hold | hnew
        · exact hold
        · exact absurd (List.mem_singleton.mp hnew) hsame
      obtain ⟨k, hk, hindex⟩ := h.indices origin hin
      obtain ⟨source', binding', hs, hb, -⟩ := h.bindings k origin hk
      refine ⟨k, by rwa [List.getElem?_append_left (List.getElem?_eq_some_iff.mp hk).1], ?_⟩
      rw [List.getElem?_set_ne, hindex]
      intro hequal
      obtain ⟨h1, h2⟩ := bindingOffset_inj hsource hs (List.getElem?_eq_some_iff.mp hbinding).1
        (List.getElem?_eq_some_iff.mp hb).1 hequal
      exact hsame (Prod.ext h1.symm h2.symm)

theorem buildFusedBindingMap_spec {map : FusedBindingMap}
    (h : buildFusedBindingMap sources = Except.ok map) :
    Numbered sources (fusedPlaces sources) map := by
  have hloop : ∀ (places seen : List (Nat × Nat)) (map next : FusedBindingMap),
      Numbered sources seen map → forEach places (addBinding sources) map = Except.ok next →
      Numbered sources (seen ++ places) next := by
    intro places
    induction places with
    | nil =>
        intro seen map next hseen hrun
        rw [List.append_nil]
        exact Except.ok.inj hrun ▸ hseen
    | cons place rest ih =>
        intro seen map next hseen hrun
        rw [forEach_cons, bind_eq_ok] at hrun
        obtain ⟨middle, hstep, hrest⟩ := hrun
        rw [← List.singleton_append, ← List.append_assoc]
        exact ih _ _ _ (hseen.addBinding hstep) hrest
  exact hloop _ [] _ _ ⟨rfl, fun k _ hnone => absurd hnone (by simp),
    fun _ hnone => absurd hnone List.not_mem_nil⟩ h

/-- The number of a binding that a node names and that is kept leads to it. -/
theorem Numbered.fetchBinding {map : FusedBindingMap}
    (h : Numbered sources (fusedPlaces sources) map)
    (hfew : map.bindings.length ≤ kMaxComputeBindingCount) {index : Nat} {source : FusedSource}
    (hsource : sources[index]? = some source) {k : Nat} {node : ParsedNode}
    (hrefs : NodeReferences source.parsed k node) {ref number : UInt32} {kind : UInt8}
    (hmem : (ref, kind) ∈ bindingOperands node)
    (hkind : kind ∈ [kParamBindingKind, kReadBindingKind, kWriteBindingKind])
    (hread : ¬ (kind = kReadBindingKind ∧ index ≠ 0 ∧ ref.toNat = source.intermediateReadBinding))
    (hwrite : ¬ (kind = kWriteBindingKind ∧ index + 1 ≠ sources.length))
    (hrun : RunD.fetchBinding sources map index ref = Except.ok number) :
    ∃ binding, source.parsed.bindings[ref.toNat]? = some binding ∧
      (fusedPlaces sources)[number.toNat]? = some (index, ref.toNat) ∧
      map.bindings[number.toNat]? = some (prefixedBinding index binding) := by
  obtain ⟨binding, hbinding, hsame⟩ := hrefs.bindings _ hmem
  dsimp only at hbinding hsame
  subst hsame
  have hkeeps : keepsBinding sources.length binding.kind source index binding ref.toNat = true :=
    decide_eq_true ⟨rfl, hread, hwrite⟩
  obtain ⟨k, hk, hindex⟩ := h.indices _ (mem_fusedPlaces hsource hbinding hkind hkeeps)
  rw [RunD.fetchBinding, fetch_eq_ok, hindex, Option.some.injEq] at hrun
  subst hrun
  have hlt := (List.getElem?_eq_some_iff.mp hk).1
  rw [← h.length] at hlt
  have hnumber : (UInt32.ofNat k).toNat = k := by
    rw [UInt32.toNat_ofNat', Nat.mod_eq_of_lt]
    have : kMaxComputeBindingCount = 64 := rfl
    omega
  rw [hnumber]
  obtain ⟨source', binding', hs, hb, hthen⟩ := h.bindings k _ hk
  cases hsource.symm.trans hs
  cases hbinding.symm.trans hb
  exact ⟨binding, hbinding, hk, hthen⟩

end Bindings

/-! ### Operands that are renumbered -/

theorem refs_eq_map (node : ParsedNode) : (parsedNodeResourcesFor node).refs =
    (List.range (refCount node.op)).map node.operand := by
  obtain ⟨op, lhs, rhs, aux, format⟩ := node
  cases op <;> rfl

theorem refCount_le (op : IrOp) : refCount op ≤ 3 := by
  cases op <;> decide

theorem setOperand_op (node : ParsedNode) (value : UInt32) (index : Nat) :
    (node.setOperand value index).op = node.op ∧
      (node.setOperand value index).fixedFormat = node.fixedFormat := by
  match index with
  | 0 => exact ⟨rfl, rfl⟩
  | 1 => exact ⟨rfl, rfl⟩
  | _ + 2 => exact ⟨rfl, rfl⟩

/-- The number of a node that an operand names is no part of the bare node. -/
theorem setOperand_bare (node : ParsedNode) (value : UInt32) {index : Nat}
    (h : index < refCount node.op) : (node.setOperand value index).bare = node.bare := by
  match index with
  | 0 => simp [ParsedNode.setOperand, ParsedNode.bare, h]
  | 1 => simp [ParsedNode.setOperand, ParsedNode.bare, h]
  | k + 2 => simp [ParsedNode.setOperand, ParsedNode.bare, show 2 < refCount node.op by omega]

theorem operand_setOperand (node : ParsedNode) (value : UInt32) {index other : Nat}
    (hindex : index < 3) (hother : other < 3) :
    (node.setOperand value index).operand other =
      if other = index then value else node.operand other := by
  obtain rfl | rfl | rfl : index = 0 ∨ index = 1 ∨ index = 2 := by omega
  all_goals obtain rfl | rfl | rfl : other = 0 ∨ other = 1 ∨ other = 2 := by omega
  all_goals rfl

/-- What stays of a node whose operands are renumbered, and what its new operands are. -/
structure Renumbers (nodeMap : List UInt32) (count : Nat) (node next : ParsedNode) : Prop where
  op : next.op = node.op
  format : next.fixedFormat = node.fixedFormat
  bare : next.bare = node.bare
  mapped : ∀ index < count, nodeMap[(node.operand index).toNat]? = some (next.operand index)

theorem remapFusedValueNode_spec {nodeMap : List UInt32} {node next : ParsedNode}
    (h : remapFusedValueNode nodeMap node = Except.ok next) :
    Renumbers nodeMap (refCount node.op) node next := by
  simp only [remapFusedValueNode, bind_eq_ok] at h
  obtain ⟨_, -, hloop⟩ := h
  have hcount : (parsedNodeResourcesFor node).refs.length = refCount node.op := by
    rw [refs_eq_map, List.length_map, List.length_range]
  rw [hcount] at hloop
  refine forRange_inv (P := fun k current => Renumbers nodeMap k node current)
    ⟨rfl, rfl, rfl, fun _ hk => absurd hk (Nat.not_lt_zero _)⟩ ?_ hloop
  intro k current after hk hcurrent hstep
  have hthree := refCount_le node.op
  simp only [remapOperand, bind_eq_ok, fetch_eq_ok, pure_eq_ok] at hstep
  obtain ⟨source, hsource, _, -, target, htarget, _, -, rfl⟩ := hstep
  rw [refs_eq_map, List.getElem?_map, List.getElem?_range hk, Option.map_some,
    Option.some.injEq] at hsource
  subst hsource
  have hop := setOperand_op current target k
  refine ⟨hop.1.trans hcurrent.op, hop.2.trans hcurrent.format, ?_, fun index hindex => ?_⟩
  · rw [setOperand_bare current target (by rw [hcurrent.op]; exact hk)]
    exact hcurrent.bare
  · rw [operand_setOperand current target (by omega) (by omega)]
    split
    · rename_i hsame
      rw [hsame]
      exact htarget
    · exact hcurrent.mapped index (by omega)

/-- An operation that names no binding. -/
def computes (op : IrOp) : Bool :=
  op ≠ .param ∧ op ≠ .read ∧ op ≠ .readUniform ∧ op ≠ .readAt ∧ op ≠ .write

theorem renumberNode_of_computes {sources : List FusedSource} {map : FusedBindingMap} {index : Nat}
    {nodeMap : List UInt32} {node : ParsedNode} (h : computes node.op = true) :
    renumberNode sources map index nodeMap node = remapFusedValueNode nodeMap node := by
  obtain ⟨op, lhs, rhs, aux, format⟩ := node
  cases op <;> first | rfl | exact (Bool.false_ne_true h).elim

/-- What such an operation computes from its operands. -/
theorem laneOf_of_computes {Lane Cell : Type} {machine : LaneMachine Lane Cell}
    {bindings : List ParsedBinding} {buffers : Nat → Nat → Cell} {element : Nat}
    {values : List (LaneValue Lane)} {node : ParsedNode} (h : computes node.op = true) :
    laneOf machine bindings buffers element values node =
      if node.op = .index then machine.index element
      else machine.apply node.bare ((List.range (refCount node.op)).map fun index =>
        machine.register values (node.operand index)) := by
  have hrefs := congrArg (List.map (machine.register values)) (refs_eq_map node)
  rw [List.map_map] at hrefs
  change _ = if _ then _ else machine.apply node.bare (List.map (machine.register values ∘ _) _)
  rw [← hrefs]
  obtain ⟨op, lhs, rhs, aux, format⟩ := node
  cases op <;> first | rfl | exact (Bool.false_ne_true h).elim

theorem bindingOperands_of_computes {node : ParsedNode} (h : computes node.op = true) :
    bindingOperands node = [] := by
  obtain ⟨op, lhs, rhs, aux, format⟩ := node
  cases op <;> first | rfl | exact (Bool.false_ne_true h).elim

theorem computes_or (op : IrOp) : computes op = true ∨
    op = .param ∨ op = .read ∨ op = .readUniform ∨ op = .readAt ∨ op = .write := by
  cases op <;> decide

/-! ### One node -/

section Node

variable {Lane Cell : Type} {machine : LaneMachine Lane Cell} {external : Nat → Nat → Nat → Cell}
  {sources : List FusedSource} {map : FusedBindingMap} {element index : Nat} {source : FusedSource}

/-- The numbers of the first nodes lead to registers with the same values. -/
def Follows (nodeMap : List UInt32) (values fused : List (LaneValue Lane)) (count : Nat) : Prop :=
  ∀ k < count, ∃ number : UInt32, nodeMap[k + 1]? = some number ∧ number ≠ 0 ∧
    fused[number.toNat - 1]? = values[k]?

theorem Follows.fetch {nodeMap : List UInt32} {values fused : List (LaneValue Lane)} {count : Nat}
    (h : Follows nodeMap values fused count) {ref number : UInt32} (hne : ref ≠ 0)
    (hlt : ref.toNat < count + 1) (hnumber : nodeMap[ref.toNat]? = some number) :
    fused[number.toNat - 1]? = values[ref.toNat - 1]? := by
  have hpos : ref.toNat ≠ 0 := fun h0 => hne (UInt32.toNat_inj.mp h0)
  obtain ⟨number', hnumber', -, hsame⟩ := h (ref.toNat - 1) (by omega)
  rw [show ref.toNat - 1 + 1 = ref.toNat by omega, hnumber, Option.some.injEq] at hnumber'
  rw [hnumber', hsame]

theorem Follows.register {nodeMap : List UInt32} {values fused : List (LaneValue Lane)}
    {count : Nat} (h : Follows nodeMap values fused count) {ref number : UInt32} (hne : ref ≠ 0)
    (hlt : ref.toNat < count + 1) (hnumber : nodeMap[ref.toNat]? = some number) :
    machine.register fused number = machine.register values ref := by
  rw [LaneMachine.register, LaneMachine.register, h.fetch hne hlt hnumber]

/-- The registers of one more node, where those of the nodes before are followed already. -/
theorem Follows.snoc {nodeMap : List UInt32} {values fused fused' : List (LaneValue Lane)}
    {count : Nat} {value : LaneValue Lane} {number : UInt32}
    (h : Follows nodeMap values fused count) (hlength : values.length = count)
    (hkeep : ∀ (k : Nat) value, fused[k]? = some value → fused'[k]? = some value)
    (hroom : count + 1 < nodeMap.length) (hne : number ≠ 0)
    (hvalue : fused'[number.toNat - 1]? = some value) :
    Follows (nodeMap.set (count + 1) number) (values ++ [value]) fused' (count + 1) := by
  intro k hk
  rcases Nat.lt_succ_iff_lt_or_eq.mp hk with hold | rfl
  · obtain ⟨other, hother, hzero, hsame⟩ := h k hold
    refine ⟨other, by rwa [List.getElem?_set_ne (by omega)], hzero, ?_⟩
    rw [List.getElem?_append_left (by omega)]
    have hget : values[k]? = some values[k] := List.getElem?_eq_getElem (by omega)
    rw [hget] at hsame ⊢
    exact hkeep _ _ hsame
  · refine ⟨number, List.getElem?_set_self hroom, hne, ?_⟩
    rw [hvalue, ← hlength]
    exact List.getElem?_concat_length.symm

/-- A node reads nothing that the program before wrote. -/
def ReadsOutside (index : Nat) (source : FusedSource) (node : ParsedNode) : Prop :=
  index = 0 ∨ ∀ operand ∈ bindingOperands node, operand.2 = kReadBindingKind →
    operand.1.toNat ≠ source.intermediateReadBinding

/-- A binding from outside is the same for the chain and for the fused program. -/
theorem Numbered.reads (h : Numbered sources (fusedPlaces sources) map)
    (hfew : map.bindings.length ≤ kMaxComputeBindingCount) (hsource : sources[index]? = some source)
    {k : Nat} {node : ParsedNode} (hrefs : NodeReferences source.parsed k node)
    (houtside : ReadsOutside index source node) {ref number : UInt32}
    (hmem : (ref, kReadBindingKind) ∈ bindingOperands node)
    (hrun : RunD.fetchBinding sources map index ref = Except.ok number) :
    fusedBuffers external sources number.toNat =
      chainBuffers machine external sources index ref.toNat := by
  have hother : index = 0 ∨ ref.toNat ≠ source.intermediateReadBinding :=
    houtside.imp_right fun hall => hall _ hmem rfl
  obtain ⟨-, -, hplace, -⟩ := h.fetchBinding hfew hsource hrefs hmem (by decide)
    (fun hno => hother.elim hno.2.1 fun hne => hne hno.2.2) (fun hno => absurd hno.1 (by decide))
    hrun
  rw [fusedBuffers, hplace]
  cases index with
  | zero => rfl
  | succ before =>
      funext place
      rw [chainBuffers, hsource]
      cases sources[before]? with
      | none => rfl
      | some writer => exact (if_neg (hother.resolve_left (Nat.succ_ne_zero _))).symm

theorem renumberNode_op {nodeMap : List UInt32} {node next : ParsedNode}
    (h : renumberNode sources map index nodeMap node = Except.ok next) : next.op = node.op := by
  rcases computes_or node.op with hcomputes | hop | hop | hop | hop | hop
  · rw [renumberNode_of_computes hcomputes] at h
    exact (remapFusedValueNode_spec h).op
  all_goals simp only [renumberNode, hop, bind_eq_ok, pure_eq_ok] at h
  iterate 3
    obtain ⟨_, -, rfl⟩ := h
    exact hop.symm
  iterate 2
    obtain ⟨_, -, _, -, rfl⟩ := h
    exact hop.symm

/-- **A node that stays computes what it computed.** -/
theorem renumberNode_lane (hmap : Numbered sources (fusedPlaces sources) map)
    (hfew : map.bindings.length ≤ kMaxComputeBindingCount) (hsource : sources[index]? = some source)
    {k : Nat} {node next : ParsedNode} (hrefs : NodeReferences source.parsed k node)
    (houtside : ReadsOutside index source node) {nodeMap : List UInt32}
    {values fused : List (LaneValue Lane)} (hfollows : Follows nodeMap values fused k)
    (hrun : renumberNode sources map index nodeMap node = Except.ok next) :
    laneValueOf machine map.bindings (fusedBuffers external sources) element fused next =
      laneValueOf machine source.parsed.bindings (chainBuffers machine external sources index)
        element values node := by
  rcases computes_or node.op with hcomputes | hop | hop | hop | hop | hop
  · rw [renumberNode_of_computes hcomputes] at hrun
    have hnext := remapFusedValueNode_spec hrun
    have hregisters : ∀ place ∈ List.range (refCount node.op),
        machine.register fused (next.operand place) =
          machine.register values (node.operand place) := by
      intro place hplace
      have hmem : node.operand place ∈ valueOperands node := by
        rw [← parsedNodeResourcesFor_refs, refs_eq_map]
        exact List.mem_map_of_mem hplace
      obtain ⟨hne, hlt, -⟩ := hrefs.values _ hmem
      exact hfollows.register hne hlt (hnext.mapped place (List.mem_range.mp hplace))
    rw [laneValueOf, laneValueOf, laneOf_of_computes hcomputes,
      laneOf_of_computes (by rw [hnext.op]; exact hcomputes), hnext.op, hnext.format, hnext.bare,
      List.map_congr_left hregisters]
  all_goals
    have hreads : ∀ {ref number : UInt32}, (ref, kReadBindingKind) ∈ bindingOperands node →
        fetchBinding sources map index ref = Except.ok number →
        fusedBuffers external sources number.toNat =
          chainBuffers machine external sources index ref.toNat :=
      fun hmem hfetch => hmap.reads hfew hsource hrefs houtside hmem hfetch
    simp only [renumberNode, hop, bind_eq_ok, pure_eq_ok] at hrun
  · -- a parameter, whose binding keeps its bytes
    obtain ⟨number, hnumber, rfl⟩ := hrun
    obtain ⟨binding, hbinding, -, hthen⟩ := hmap.fetchBinding hfew hsource hrefs
      (show (node.aux, kParamBindingKind) ∈ _ by simp [bindingOperands, hop]) (by decide)
      (fun hno => absurd hno.1 (by decide)) (fun hno => absurd hno.1 (by decide)) hnumber
    simp only [laneValueOf, laneOf, hop, hthen, hbinding]
    rfl
  · obtain ⟨number, hnumber, rfl⟩ := hrun
    simp only [laneValueOf, laneOf, hop, hreads (by simp [bindingOperands, hop]) hnumber]
  · obtain ⟨number, hnumber, rfl⟩ := hrun
    simp only [laneValueOf, laneOf, hop, hreads (by simp [bindingOperands, hop]) hnumber]
  · obtain ⟨lhs, hlhs, aux, haux, rfl⟩ := hrun
    simp only [laneValueOf, laneOf, hop, hreads (by simp [bindingOperands, hop]) hlhs,
      hreads (by simp [bindingOperands, hop]) haux]
  · obtain ⟨lhs, -, aux, -, rfl⟩ := hrun
    simp only [laneValueOf, laneOf, hop]

/-- A write of the last program stores what it stored, behind the binding that it had. -/
theorem renumberNode_write (hmap : Numbered sources (fusedPlaces sources) map)
    (hfew : map.bindings.length ≤ kMaxComputeBindingCount) (hsource : sources[index]? = some source)
    (hlast : index + 1 = sources.length) {k : Nat} {node next : ParsedNode}
    (hrefs : NodeReferences source.parsed k node) (hop : node.op = .write) {nodeMap : List UInt32}
    {values fused : List (LaneValue Lane)} (hfollows : Follows nodeMap values fused k)
    (hrun : renumberNode sources map index nodeMap node = Except.ok next) :
    SameWrite sources (next.aux.toNat, storedCell machine map.bindings fused next)
      (node.aux.toNat, storedCell machine source.parsed.bindings values node) := by
  simp only [renumberNode, hop, bind_eq_ok, pure_eq_ok] at hrun
  obtain ⟨lhs, hlhs, aux, haux, rfl⟩ := hrun
  obtain ⟨hne, hlt, -⟩ := hrefs.values node.lhs (by simp [valueOperands, hop])
  obtain ⟨binding, hbinding, hplace, hthen⟩ := hmap.fetchBinding hfew hsource hrefs
    (show (node.aux, kWriteBindingKind) ∈ _ by simp [bindingOperands, hop]) (by decide)
    (fun hno => absurd hno.1 (by decide)) (fun hno => hno.2 hlast) haux
  rw [if_pos hne, fetch_eq_ok] at hlhs
  refine ⟨by rw [← hlast]; exact hplace, ?_⟩
  simp only [storedCell, hthen, hbinding, hfollows.register hne hlt hlhs]
  rfl

end Node

/-! ### All nodes -/

/-- The chain that is fused, the numbers of its bindings, and what it runs on. -/
structure Fusing (Lane Cell : Type) where
  machine : LaneMachine Lane Cell
  external : Nat → Nat → Nat → Cell
  sources : List FusedSource
  map : FusedBindingMap
  element : Nat

namespace Fusing

variable {Lane Cell : Type} (x : Fusing Lane Cell)

/-- What the builder has checked, and what the chain is asked for. -/
structure Valid : Prop where
  numbered : Numbered x.sources (fusedPlaces x.sources) x.map
  bindings_le : x.map.bindings.length ≤ kMaxComputeBindingCount
  admitted : ∀ index source, x.sources[index]? = some source →
    AdmittedSource x.sources.length index source
  sources_le : x.sources.length ≤ kMaxGraphNodeCount
  agrees : ChainAgrees x.machine x.external x.sources x.element

/-- The buffers of a program of the chain. -/
def buffers (index : Nat) : Nat → Nat → Cell := chainBuffers x.machine x.external x.sources index

/-- A program of the chain. -/
def run (index : Nat) (source : FusedSource) : LaneRun Lane Cell :=
  runSource x.machine x.external x.sources index x.element source

/-- The first nodes of a program, as a part of the chain. -/
def first (index : Nat) (source : FusedSource) (count : Nat) : LaneRun Lane Cell :=
  runLane x.machine source.parsed.bindings (x.buffers index) x.element
    (source.parsed.nodes.take count)

/-- The nodes that are spliced. -/
def spliced (nodes : List ParsedNode) : LaneRun Lane Cell :=
  runLane x.machine x.map.bindings (fusedBuffers x.external x.sources) x.element nodes

/-- A number leads to the value that a program writes. -/
def Carries (index : Nat) (source : FusedSource) (nodes : List ParsedNode) (carrier : UInt32) :
    Prop :=
  ∃ write ∈ source.parsed.nodes, write.op = .write ∧ ∃ value,
    (x.run index source).values[write.lhs.toNat - 1]? = some value ∧
      (x.spliced nodes).values[carrier.toNat - 1]? = some value

/-- What is known once some nodes of a source are spliced.  The numbers of its nodes count until it
wrote what the next source reads; from then on only the number that is carried does. -/
structure Spliced (index : Nat) (source : FusedSource) (count : Nat) (splice : Splice) : Prop where
  few : splice.nodes.length ≤ kMaxComputeNodeCount * index + count
  follows : (index + 1 = x.sources.length ∨ ∀ node ∈ source.parsed.nodes.take count,
      node.op ≠ .write) →
    Follows splice.nodeMap (x.first index source count).values (x.spliced splice.nodes).values
        count ∧
      ∀ before writer, index = before + 1 → x.sources[before]? = some writer →
        x.Carries before writer splice.nodes splice.carrier
  carried : index + 1 ≠ x.sources.length → ∀ node ∈ source.parsed.nodes.take count,
    node.op = .write → x.Carries index source splice.nodes splice.carrier
  silent : index + 1 ≠ x.sources.length → (x.spliced splice.nodes).writes = []
  writes : index + 1 = x.sources.length → List.Forall₂ (SameWrite x.sources)
    (x.spliced splice.nodes).writes (x.first index source count).writes

variable {x}

theorem spliced_concat (nodes : List ParsedNode) (node : ParsedNode) :
    x.spliced (nodes ++ [node]) =
      stepLane x.machine x.map.bindings (fusedBuffers x.external x.sources) x.element
        (x.spliced nodes) node := runLane_concat nodes node

theorem first_succ {index count : Nat} {source : FusedSource} {node : ParsedNode}
    (h : source.parsed.nodes[count]? = some node) :
    x.first index source (count + 1) =
      stepLane x.machine source.parsed.bindings (x.buffers index) x.element
        (x.first index source count) node := by
  rw [first, take_succ_of_getElem? h, runLane_concat]
  rfl

theorem length_first {index count : Nat} {source : FusedSource}
    (h : count ≤ source.parsed.nodes.length) :
    (x.first index source count).values.length = count := by
  rw [first, length_runLane, List.length_take]
  omega

/-- What is carried stays carried when nodes are added. -/
theorem Carries.append {index : Nat} {source : FusedSource} {nodes : List ParsedNode}
    {carrier : UInt32} (h : x.Carries index source nodes carrier) (node : ParsedNode) :
    x.Carries index source (nodes ++ [node]) carrier := by
  obtain ⟨write, hmem, hop, value, hvalue, hcarried⟩ := h
  refine ⟨write, hmem, hop, value, hvalue, ?_⟩
  have hlt := (List.getElem?_eq_some_iff.mp hcarried).1
  rw [spliced_concat, stepLane_values, List.getElem?_append_left hlt]
  exact hcarried

variable {index count : Nat} {source : FusedSource} {splice : Splice}

/-- The node that reads what the program before wrote has the value that is carried. -/
theorem Spliced.read (h : x.Spliced index source count splice) (hx : x.Valid)
    (hsource : x.sources[index]? = some source)
    {node : ParsedNode} (hnode : source.parsed.nodes[count]? = some node) (hindex : index ≠ 0)
    (hop : node.op = .read) (haux : node.aux.toNat = source.intermediateReadBinding)
    (hroom : count + 1 < splice.nodeMap.length) (hcarrier : splice.carrier ≠ 0) :
    x.Spliced index source (count + 1)
      { splice with nodeMap := splice.nodeMap.set (count + 1) splice.carrier } := by
  have hlt := (List.getElem?_eq_some_iff.mp hnode).1
  have htake := take_succ_of_getElem? hnode
  have hne : node.op ≠ .write := by
    rw [hop]
    decide
  have hwrites := @first_succ _ _ x index count source node hnode
  refine ⟨by have := h.few; dsimp only; omega, fun hlive => ?_, fun hinner write hmem hwrite => ?_,
    h.silent, fun hlast => ?_⟩
  · obtain ⟨hfollows, hcarries⟩ := h.follows (hlive.imp_right fun hall write hmem =>
      hall write (by rw [htake]; exact List.mem_append_left _ hmem))
    refine ⟨?_, hcarries⟩
    rw [hwrites, stepLane_values]
    obtain ⟨before, rfl⟩ := Nat.exists_eq_succ_of_ne_zero hindex
    obtain ⟨writer, hwriter⟩ : ∃ writer, x.sources[before]? = some writer :=
      ⟨_, List.getElem?_eq_getElem (by have := (List.getElem?_eq_some_iff.mp hsource).1; omega)⟩
    obtain ⟨write, hmem, hwrite, value, hvalue, hcarried⟩ := hcarries before writer rfl hwriter
    refine hfollows.snoc (length_first hlt.le) (fun _ _ hk => hk) hroom hcarrier ?_
    rw [hcarried]
    -- what the read loads is what the write of the program before stored
    have hreload := (hx.agrees before writer source hwriter hsource).reload write hmem hwrite value
      hvalue node (List.mem_of_getElem? hnode) hop haux
    have hload : x.buffers (before + 1) node.aux.toNat x.element =
        x.machine.writtenCell (runMap x.machine (x.buffers before) x.element writer.parsed) := by
      rw [buffers, chainBuffers, hwriter, hsource]
      exact if_pos haux
    rw [laneValueOf, laneOf, hop]
    dsimp only
    rw [Nat.succ_eq_add_one, hload]
    exact congrArg some hreload.symm
  · rw [htake, List.mem_append, List.mem_singleton] at hmem
    rcases hmem with hold | rfl
    · exact h.carried hinner write hold hwrite
    · exact absurd hwrite hne
  · rw [hwrites, stepLane_writes_of_ne hne]
    exact h.writes hlast

/-- The write of a program that is not the last one is dropped, and its value is carried. -/
theorem Spliced.write (h : x.Spliced index source count splice)
    (hadmitted : AdmittedSource x.sources.length index source) {node : ParsedNode}
    (hnode : source.parsed.nodes[count]? = some node) (hop : node.op = .write)
    (hinner : index + 1 ≠ x.sources.length) {carrier : UInt32}
    (hcarrier : splice.nodeMap[node.lhs.toNat]? = some carrier) :
    x.Spliced index source (count + 1) { splice with carrier } := by
  have hlt := (List.getElem?_eq_some_iff.mp hnode).1
  have htake := take_succ_of_getElem? hnode
  -- it is the only write, so the registers were followed up to here
  have hfirst : ∀ other ∈ source.parsed.nodes.take count, other.op ≠ .write := by
    intro other hmem hother
    have hone := hadmitted.once hinner
    rw [writeNodeCount, ← List.take_append_drop (count + 1) source.parsed.nodes, htake,
      List.countP_append, List.countP_append, List.countP_singleton] at hone
    have hpos : 0 < (source.parsed.nodes.take count).countP fun node => node.op == .write :=
      List.countP_pos_iff.mpr ⟨other, hmem, by rw [hother]; rfl⟩
    rw [hop] at hone
    simp only [beq_self_eq_true, if_true] at hone
    omega
  have hfollows := (h.follows (Or.inr hfirst)).1
  obtain ⟨hne, hbelow, -⟩ := (hadmitted.references count node hnode).values node.lhs
    (by simp [valueOperands, hop])
  have hpos : node.lhs.toNat ≠ 0 := fun h0 => hne (UInt32.toNat_inj.mp h0)
  have hcarries : x.Carries index source splice.nodes carrier := by
    have hregister := @register_runLane_take _ _ x.machine (x.buffers index) x.element _
      hadmitted.references _ _ hnode node.lhs (by simp [valueOperands, hop])
    obtain ⟨value, hvalue⟩ : ∃ value,
        (x.first index source count).values[node.lhs.toNat - 1]? = some value :=
      ⟨_, List.getElem?_eq_getElem (by rw [length_first hlt.le]; omega)⟩
    refine ⟨node, List.mem_of_getElem? hnode, hop, value, ?_,
      (hfollows.fetch hne hbelow hcarrier).trans hvalue⟩
    rw [run, runSource, ← buffers, ← hregister]
    exact hvalue
  refine ⟨by have := h.few; dsimp only; omega, fun hlive => ?_, fun _ _ _ _ => hcarries, h.silent,
    fun hlast => absurd hlast hinner⟩
  rcases hlive with hlast | hnone
  · exact absurd hlast hinner
  · exact absurd hop (hnone node (by rw [htake]; exact List.mem_append_right _ List.mem_cons_self))

/-- A node that is neither dropped nor replaced reads nothing that the program before wrote. -/
theorem Valid.readsOutside (hx : x.Valid) (hsource : x.sources[index]? = some source)
    {node : ParsedNode} (hnode : node ∈ source.parsed.nodes)
    (hkept : ¬ (index ≠ 0 ∧ node.op = .read ∧ node.aux.toNat = source.intermediateReadBinding)) :
    ReadsOutside index source node := by
  rcases Nat.eq_zero_or_pos index with hzero | hpos
  · exact Or.inl hzero
  · obtain ⟨before, rfl⟩ := Nat.exists_eq_succ_of_ne_zero hpos.ne'
    have hlt := (List.getElem?_eq_some_iff.mp hsource).1
    have hwriter : x.sources[before]? = some x.sources[before] :=
      List.getElem?_eq_getElem (by omega)
    obtain ⟨huniform, hat⟩ := (hx.agrees before _ source hwriter hsource).direct node hnode
    refine Or.inr fun operand hmem hkind haux => ?_
    rcases computes_or node.op with hcomputes | hop | hop | hop | hop | hop
    · rw [bindingOperands_of_computes hcomputes] at hmem
      exact List.not_mem_nil hmem
    all_goals simp only [bindingOperands, hop, List.mem_cons, List.not_mem_nil, or_false] at hmem
    · rw [hmem] at hkind
      exact absurd hkind (show kParamBindingKind ≠ kReadBindingKind by decide)
    · exact hkept ⟨hpos.ne', hop, by rw [← haux, hmem]⟩
    · exact huniform hop (by rw [← haux, hmem])
    · rcases hmem with rfl | rfl
      · exact (hat hop).1 haux
      · exact (hat hop).2 haux
    · rw [hmem] at hkind
      exact absurd hkind (show kWriteBindingKind ≠ kReadBindingKind by decide)

/-- A node that stays is put behind the others, and is known by its new number. -/
theorem Spliced.keep (h : x.Spliced index source count splice) (hx : x.Valid)
    (hsource : x.sources[index]? = some source)
    {node next : ParsedNode} (hnode : source.parsed.nodes[count]? = some node)
    (hread : ¬ (index ≠ 0 ∧ node.op = .read ∧ node.aux.toNat = source.intermediateReadBinding))
    (hwrite : ¬ (node.op = .write ∧ index + 1 ≠ x.sources.length))
    (hnumber : splice.nodes.length + 1 < 2 ^ 32)
    (hrun : renumberNode x.sources x.map index splice.nodeMap node = Except.ok next)
    (hroom : count + 1 < splice.nodeMap.length) :
    x.Spliced index source (count + 1)
      { splice with
        nodes := splice.nodes ++ [next]
        nodeMap :=
          splice.nodeMap.set (count + 1) (UInt32.ofNat (splice.nodes ++ [next]).length) } := by
  have hlt := (List.getElem?_eq_some_iff.mp hnode).1
  have hmem := List.mem_of_getElem? hnode
  have htake := take_succ_of_getElem? hnode
  have hop := renumberNode_op hrun
  have hrefs := (hx.admitted index source hsource).references count node hnode
  have houtside := hx.readsOutside hsource hmem hread
  have hfirst := @first_succ _ _ x index count source node hnode
  refine ⟨?_, fun hlive => ?_, fun hinner write hin hopWrite => ?_, fun hinner => ?_,
    fun hlast => ?_⟩
  · have := h.few
    simp only [List.length_append, List.length_singleton]
    omega
  · obtain ⟨hfollows, hcarries⟩ := h.follows (hlive.imp_right fun hall write hin =>
      hall write (by rw [htake]; exact List.mem_append_left _ hin))
    refine ⟨?_, fun before writer hbefore hwriter =>
      (hcarries before writer hbefore hwriter).append _⟩
    have hlength : (splice.nodes ++ [next]).length = splice.nodes.length + 1 := List.length_append
    have hvalue : (UInt32.ofNat (splice.nodes ++ [next]).length).toNat =
        splice.nodes.length + 1 := by
      rw [UInt32.toNat_ofNat', hlength, Nat.mod_eq_of_lt hnumber]
    have hspliced : (x.spliced splice.nodes).values.length = splice.nodes.length :=
      length_runLane _
    rw [hfirst, stepLane_values, spliced_concat, stepLane_values]
    refine hfollows.snoc (length_first hlt.le) (fun k value hk => ?_) hroom (fun hzero => ?_) ?_
    · rw [List.getElem?_append_left (List.getElem?_eq_some_iff.mp hk).1]
      exact hk
    · rw [hzero] at hvalue
      exact absurd hvalue (Nat.zero_ne_add_one _)
    · rw [hvalue, Nat.add_sub_cancel, ← hspliced, List.getElem?_concat_length]
      exact congrArg some
        (renumberNode_lane hx.numbered hx.bindings_le hsource hrefs houtside hfollows hrun)
  · rw [htake, List.mem_append, List.mem_singleton] at hin
    rcases hin with hold | rfl
    · exact (h.carried hinner write hold hopWrite).append _
    · exact absurd ⟨hopWrite, hinner⟩ hwrite
  · rw [spliced_concat, stepLane_writes_of_ne (fun heq => hwrite ⟨hop.symm.trans heq, hinner⟩)]
    exact h.silent hinner
  · obtain ⟨hfollows, -⟩ := h.follows (Or.inl hlast)
    rw [spliced_concat, hfirst]
    by_cases hopWrite : node.op = .write
    · rw [stepLane_writes_of_write hopWrite, stepLane_writes_of_write (hop.trans hopWrite)]
      refine List.rel_append (h.writes hlast) (List.Forall₂.cons ?_ .nil)
      exact renumberNode_write hx.numbered hx.bindings_le hsource hlast hrefs hopWrite hfollows hrun
    · rw [stepLane_writes_of_ne hopWrite, stepLane_writes_of_ne (by rw [hop]; exact hopWrite)]
      exact h.writes hlast

/-- One node more is spliced. -/
theorem Spliced.step (h : x.Spliced index source count splice) (hx : x.Valid)
    (hsource : x.sources[index]? = some source) (hnumber : splice.nodes.length + 1 < 2 ^ 32)
    {next : Splice} (hrun : spliceNode x.sources x.map index source count splice = Except.ok next) :
    x.Spliced index source (count + 1) next := by
  simp only [spliceNode, bind_eq_ok, fetch_eq_ok] at hrun
  obtain ⟨node, hnode, hrun⟩ := hrun
  by_cases hread : index ≠ 0 ∧ node.op = .read ∧ node.aux.toNat = source.intermediateReadBinding
  · simp only [if_pos hread, bind_eq_ok, require_eq_ok, assign_eq_ok, pure_eq_ok] at hrun
    obtain ⟨_, hcarrier, _, ⟨hroom, rfl⟩, rfl⟩ := hrun
    exact h.read hx hsource hnode hread.1 hread.2.1 hread.2.2 hroom hcarrier
  · rw [if_neg hread] at hrun
    by_cases hwrite : node.op = .write ∧ index + 1 ≠ x.sources.length
    · simp only [if_pos hwrite, bind_eq_ok, fetch_eq_ok, pure_eq_ok] at hrun
      obtain ⟨carrier, hcarrier, _, -, rfl⟩ := hrun
      exact h.write (hx.admitted index source hsource) hnode hwrite.1 hwrite.2 hcarrier
    · simp only [if_neg hwrite, bind_eq_ok, assign_eq_ok, pure_eq_ok] at hrun
      obtain ⟨renumbered, hrenumber, _, ⟨hroom, rfl⟩, rfl⟩ := hrun
      exact h.keep hx hsource hnode hread hwrite hnumber hrenumber hroom

/-! ### All sources -/

/-- What is known once some sources are spliced. -/
structure Joined (x : Fusing Lane Cell) (index : Nat) (splice : Splice) : Prop where
  few : splice.nodes.length ≤ kMaxComputeNodeCount * index
  silent : index ≠ x.sources.length → (x.spliced splice.nodes).writes = []
  carried : index ≠ x.sources.length → ∀ before writer, index = before + 1 →
    x.sources[before]? = some writer → x.Carries before writer splice.nodes splice.carrier
  writes : index = x.sources.length → ∀ before last, index = before + 1 →
    x.sources[before]? = some last → List.Forall₂ (SameWrite x.sources)
      (x.spliced splice.nodes).writes (x.run before last).writes

/-- One source more is spliced. -/
theorem Joined.step (h : x.Joined index splice) (hx : x.Valid) (hindex : index < x.sources.length)
    {next : Splice} (hrun : spliceSource x.sources x.map index splice = Except.ok next) :
    x.Joined (index + 1) next := by
  simp only [spliceSource, bind_eq_ok, fetch_eq_ok] at hrun
  obtain ⟨source, hsource, hloop⟩ := hrun
  have hspec := hx.admitted index source hsource
  have hstart : x.Spliced index source 0
      { splice with
        nodeMap := List.replicate (source.parsed.nodes.length + 1) 0 ++
          splice.nodeMap.drop (source.parsed.nodes.length + 1) } :=
    ⟨h.few, fun _ => ⟨fun _ hk => absurd hk (Nat.not_lt_zero _), h.carried hindex.ne⟩,
      fun _ _ hmem => absurd hmem (by simp), fun _ => h.silent hindex.ne, fun _ => by
        rw [h.silent hindex.ne]
        exact .nil⟩
  have hend : x.Spliced index source source.parsed.nodes.length next := by
    refine forRange_inv (P := fun k splice => x.Spliced index source k splice) hstart ?_ hloop
    intro k splice next hk hspliced hstep
    refine hspliced.step hx hsource ?_ hstep
    have hfew := hspliced.few
    have hnodes := hspec.few
    have hsources := hx.sources_le
    simp only [kMaxGraphNodeCount, kMaxComputeNodeCount] at *
    omega
  have htake : source.parsed.nodes.take source.parsed.nodes.length = source.parsed.nodes :=
    List.take_length
  have hnodes := hspec.few
  refine ⟨hend.few.trans (by rw [Nat.mul_succ]; omega), hend.silent, ?_, ?_⟩
  · intro hinner before writer hbefore hwriter
    cases Nat.succ_inj.mp hbefore
    cases hsource.symm.trans hwriter
    obtain ⟨write, hmem, hop⟩ : ∃ write ∈ source.parsed.nodes, (write.op == .write) = true := by
      refine List.countP_pos_iff.mp ?_
      have hone := hspec.once hinner
      rw [writeNodeCount] at hone
      omega
    exact hend.carried hinner write (by rw [htake]; exact hmem) (eq_of_beq hop)
  · intro hlast before last hbefore hget
    cases Nat.succ_inj.mp hbefore
    cases hsource.symm.trans hget
    have hwrites := hend.writes hlast
    rw [first, htake] at hwrites
    exact hwrites

/-- The nodes of the fused program write what the last program of the chain writes. -/
theorem Valid.writes (hx : x.Valid) {nodeCount : Nat} {nodes : List ParsedNode}
    (hrun : buildFusedNodeMap x.sources x.map nodeCount = Except.ok nodes) {last : FusedSource}
    (hlast : x.sources[x.sources.length - 1]? = some last) :
    List.Forall₂ (SameWrite x.sources) (x.spliced nodes).writes
      (x.run (x.sources.length - 1) last).writes := by
  simp only [buildFusedNodeMap, bind_eq_ok, require_eq_ok, pure_eq_ok] at hrun
  obtain ⟨splice, hloop, _, -, rfl⟩ := hrun
  have hend : x.Joined x.sources.length splice := by
    refine forRange_inv (P := fun k splice => x.Joined k splice)
      ⟨Nat.zero_le _, fun _ => rfl, fun _ _ _ hzero => absurd hzero (Nat.zero_ne_add_one _),
        fun _ _ _ hzero => absurd hzero (Nat.zero_ne_add_one _)⟩ ?_ hloop
    exact fun index splice next hindex hjoined hstep => hjoined.step hx hindex hstep
  have hpos := (List.getElem?_eq_some_iff.mp hlast).1
  exact hend.writes rfl _ last (by omega) hlast

end Fusing

/-! ### The builder -/

theorem planFusion_nodes_le {graph : Graph} {policy : List FusionNodePolicy} {plan : FusionPlan}
    (h : planFusion graph policy = Except.ok plan) : graph.nodes.length ≤ kMaxGraphNodeCount := by
  simp only [planFusion, validateGraph, validateGraphHeader, bind_eq_ok, require_eq_ok] at h
  obtain ⟨_, ⟨_, ⟨_, -, _, -, _, hcount, -⟩, -⟩, -⟩ := h
  exact hcount

/-- The bindings of the fused program are those that are kept, in their order. -/
def KeepsBindings (sources : List FusedSource) (fused : ParsedIR) : Prop :=
  fused.bindings.length = (fusedPlaces sources).length ∧
    ∀ (k : Nat) (origin : Nat × Nat), (fusedPlaces sources)[k]? = some origin →
      ∃ (source : FusedSource) (binding : ParsedBinding), sources[origin.1]? = some source ∧
        source.parsed.bindings[origin.2]? = some binding ∧
        fused.bindings[k]? = some (prefixedBinding origin.1 binding)

/-- What the fused program writes for an element is what the last program of the chain writes. -/
def KeepsMeaning (sources : List FusedSource) (fused : ParsedIR) : Prop :=
  ∀ (Lane Cell : Type) (machine : LaneMachine Lane Cell) (external : Nat → Nat → Nat → Cell)
    (element : Nat), ChainAgrees machine external sources element →
    ∀ last, sources[sources.length - 1]? = some last → List.Forall₂ (SameWrite sources)
      (runMap machine (fusedBuffers external sources) element fused).writes
      (runSource machine external sources (sources.length - 1) element last).writes

theorem buildFusedParsed_meaning {sources : List FusedSource} {scalar : ComputeScalar}
    {domain : ComputeDomain} {bindingCount nodeCount : Nat} {parsed : ParsedIR}
    (hadmitted : ∀ index source, sources[index]? = some source →
      AdmittedSource sources.length index source)
    (hsources : sources.length ≤ kMaxGraphNodeCount)
    (h : buildFusedParsed sources scalar domain bindingCount nodeCount = Except.ok parsed) :
    KeepsBindings sources parsed ∧ KeepsMeaning sources parsed := by
  simp only [buildFusedParsed, bind_eq_ok, require_eq_ok, fetch_eq_ok, pure_eq_ok] at h
  obtain ⟨map, hmap, _, hfew, nodes, hnodes, _, -, last, -, rfl⟩ := h
  have hnumbered := buildFusedBindingMap_spec hmap
  refine ⟨⟨hnumbered.length, hnumbered.bindings⟩,
    fun Lane Cell machine external element hagrees last hlast => ?_⟩
  let x : Fusing Lane Cell := { machine, external, sources, map, element }
  have hx : x.Valid := ⟨hnumbered, hfew.2, hadmitted, hsources, hagrees⟩
  exact hx.writes hnodes hlast

/-- **A chain that is fused keeps its meaning.**  The fused program is made of the chain's own
programs, its bindings are those that are not between two of them, and on every element it writes
what the last program writes when they are run one after the other. -/
theorem buildFused_meaning {chain : List (ComputeIR × String)} {graph : Graph}
    {policy : List FusionNodePolicy} {api : ComputeApi} {fused : FusedMapChain}
    (h : buildFusedComputeMapChainIR chain graph policy api = Except.ok fused) :
    ∃ sources, admitSources chain graph policy api = Except.ok sources ∧
      sources.length = chain.length ∧ KeepsBindings sources fused.parsed ∧
      KeepsMeaning sources fused.parsed := by
  simp only [buildFusedComputeMapChainIR, bind_eq_ok, require_eq_ok] at h
  obtain ⟨fusion, hplan, _, -, _, hshape, sources, hsources, hassemble⟩ := h
  simp only [assembleFused, bind_eq_ok, require_eq_ok, pure_eq_ok] at hassemble
  obtain ⟨_, -, _, -, parsed, hparsed, _, -, _, -, rfl⟩ := hassemble
  obtain ⟨hlength, hadmitted⟩ := admitSources_spec hsources
  have hcount := planFusion_nodes_le hplan
  rw [hshape.2.1, ← hlength] at hcount
  rw [← hlength] at hadmitted
  exact ⟨sources, hsources, hlength, buildFusedParsed_meaning hadmitted hcount hparsed⟩

/-- A map of words by an operation with a constant. -/
def mapBy (op : IrOp) (constant : UInt8) : ParsedIR :=
  { name := [0x6d], scalarMode := domainModeFor .lane32 .u32
    bindings := [
      { kind := kParamBindingKind, numericMode := domainModeFor .lane32 .u32, name := [0x63],
        elementBytes := 4, valueBytes := [constant, 0, 0, 0] },
      { kind := kReadBindingKind, numericMode := domainModeFor .lane32 .u32, name := [0x78],
        elementBytes := 4 },
      { kind := kWriteBindingKind, numericMode := domainModeFor .lane32 .u32, name := [0x79],
        elementBytes := 4 }]
    nodes := [{ op := .read, aux := 1 }, { op := .param }, { op, lhs := 1, rhs := 2 },
      { op := .write, lhs := 3, aux := 2 }] }

/-- Five is added, and the sum is taken three times. -/
def tripleMaps : List ParsedIR := [mapBy .add 5, mapBy .mul 3]

def tripleGraph : Graph :=
  { nodes := tripleMaps.zipIdx.map fun (parsed, index) =>
      let ir := buildFusedIR parsed .lane32 .u32
      { opHashHi := ir.opHashHi, opHashLo := ir.opHashLo, elementCount := 8
        buffers := [{ logicalId := UInt64.ofNat (index + 1) },
          { logicalId := UInt64.ofNat (index + 2), role := .write }] }
    outputs := [3], scalar := .lane32, domain := .u32 }

def triplePolicy : FusionNodePolicy :=
  { directReadMask := 1, supported := true, bindingCount := 3, irNodeCount := 4 }

def tripleChain : List (ComputeIR × String) :=
  tripleMaps.map fun parsed => (buildFusedIR parsed .lane32 .u32, "ok")

def tripleSources : List FusedSource :=
  [{ parsed := mapBy .add 5 }, { parsed := mapBy .mul 3, intermediateReadBinding := 1 }]

/-- Lanes and elements that are numbers. -/
def wordMachine : LaneMachine Nat Nat where
  apply node operands :=
    match node.op, operands.map LaneValue.lane with
    | .add, [a, b] => a + b
    | .mul, [a, b] => a * b
    | _, _ => 0
  param _ bytes := (bytes.headD 0).toNat
  index element := element
  load cell := cell
  store _ lane := lane
  word cell := cell
  zero := 0

/-- Every element of a buffer from outside is seven more than its index. -/
def wordExternal (_index _binding element : Nat) : Nat := element + 7

theorem chainAgrees_triple : ChainAgrees wordMachine wordExternal tripleSources 4 := by
  intro index writer reader hwriter hreader
  match index with
  | 0 =>
      cases hwriter
      cases hreader
      refine ⟨by decide, fun write hmem hop value hvalue read hread hopRead _ => ?_⟩
      simp only [mapBy, List.mem_cons, List.not_mem_nil, or_false] at hmem hread
      rcases hmem with rfl | rfl | rfl | rfl <;> cases hop
      rcases hread with rfl | rfl | rfl | rfl <;> cases hopRead
      exact Option.some.inj hvalue
  | _ + 1 => cases hreader

theorem buildFused_meaning_triple : ∃ fused place,
    buildFusedComputeMapChainIR tripleChain tripleGraph [triplePolicy, triplePolicy] .cpu =
        Except.ok fused ∧
      (runMap wordMachine (fusedBuffers wordExternal tripleSources) 4 fused.parsed).writes =
        [(place, 48)] := by
  have hok : (buildFusedComputeMapChainIR tripleChain tripleGraph [triplePolicy, triplePolicy]
      .cpu).toOption.isSome = true := by
    decide +kernel
  obtain ⟨fused, hfused⟩ : ∃ fused, buildFusedComputeMapChainIR tripleChain tripleGraph
      [triplePolicy, triplePolicy] .cpu = Except.ok fused := by
    cases hrun : buildFusedComputeMapChainIR tripleChain tripleGraph
      [triplePolicy, triplePolicy] .cpu with
    | ok fused => exact ⟨fused, rfl⟩
    | error reason =>
        rw [hrun] at hok
        cases hok
  obtain ⟨sources, hsources, -, -, hmeaning⟩ := buildFused_meaning hfused
  have hadmits : admitSources tripleChain tripleGraph [triplePolicy, triplePolicy] .cpu =
      Except.ok tripleSources := by
    decide +kernel
  cases hadmits.symm.trans hsources
  have hwrites := hmeaning Nat Nat wordMachine _ 4 chainAgrees_triple _ rfl
  rw [show (runSource wordMachine wordExternal tripleSources (tripleSources.length - 1) 4
    { parsed := mapBy .mul 3, intermediateReadBinding := 1 }).writes = [(2, 48)] by rfl] at hwrites
  obtain ⟨own, rest, hown, hrest, hall⟩ := List.forall₂_cons_right_iff.mp hwrites
  cases hrest
  have hcell : own.2 = 48 := hown.2
  exact ⟨fused, own.1, hfused, by rw [hall, ← hcell]⟩

end RunD
