/-
The analysis of a stream of accesses.

The accesses come in the order of their nodes.  Each is placed in the address
space of its alias group, the index of the group gives the earlier accesses its
envelope meets from the newest on, and the nodes of those it conflicts with
become dependencies.  The look back ends at a conflict whose overlap is the
whole envelope of the access.
-/
import RunD.HazardIndex
import RunD.HazardModel

namespace RunD.Hazard

/-! ### Plans -/

def noNode : UInt32 := 0xFFFFFFFF

/-- `Lifetime`. -/
structure Lifetime where
  firstUse : UInt32
  lastUse : UInt32
  deriving DecidableEq, Repr

/-- `Dependency`. -/
structure Dependency where
  beforeNode : UInt32
  afterNode : UInt32
  deriving DecidableEq, Repr

/-- `Barrier`: the witness of a dependency. -/
structure Barrier where
  aliasGroup : UInt64
  beforeResource : UInt32
  afterResource : UInt32
  offsetBytes : UInt64
  sizeBytes : UInt64
  beforeOffsetBytes : UInt64
  beforeElementBytes : UInt64
  beforeElementCount : UInt64
  beforeStrideBytes : UInt64
  afterOffsetBytes : UInt64
  afterElementBytes : UInt64
  afterElementCount : UInt64
  afterStrideBytes : UInt64
  beforeNode : UInt32
  afterNode : UInt32
  before : AccessMode
  after : AccessMode
  deriving DecidableEq, Repr

/-- `Plan`: a dependency and its barrier have the same place. -/
structure Plan where
  lifetimes : List Lifetime
  dependencies : List Dependency
  barriers : List Barrier
  deriving DecidableEq, Repr

/-! ### Conflicts -/

/-- Whether two accesses of different nodes have to be ordered, given that they overlap. -/
def ordersModes (before current : PhysicalAccess) : Bool :=
  before.access.node != current.access.node &&
    !(before.access.mode == .read && current.access.mode == .read)

/-- The nodes of a conflict. -/
def dependencyOf (before current : PhysicalAccess) : Dependency :=
  { beforeNode := before.access.node, afterNode := current.access.node }

/-- The witness of a conflict. -/
def witnessOf (before current : PhysicalAccess) (overlap : Overlap) : Barrier where
  aliasGroup := current.aliasGroup
  beforeResource := before.access.resource
  afterResource := current.access.resource
  offsetBytes := overlap.first
  sizeBytes := overlap.last - overlap.first
  beforeOffsetBytes := before.offset
  beforeElementBytes := before.elementBytes
  beforeElementCount := before.elementCount
  beforeStrideBytes := before.strideBytes
  afterOffsetBytes := current.offset
  afterElementBytes := current.elementBytes
  afterElementCount := current.elementCount
  afterStrideBytes := current.strideBytes
  beforeNode := before.access.node
  afterNode := current.access.node
  before := before.access.mode
  after := current.access.mode

/-- The row of a dependency is its place in the plan; a witness within one resource gives way to
one across two. -/
def Plan.record (plan : Plan) (dependency : Dependency) (witness : Barrier) : Plan :=
  match plan.dependencies.findIdx? (· == dependency) with
  | none =>
      { plan with
        dependencies := plan.dependencies ++ [dependency]
        barriers := plan.barriers ++ [witness] }
  | some row =>
      match plan.barriers[row]? with
      | none => plan
      | some held =>
          if held.beforeResource = held.afterResource ∧
              witness.beforeResource ≠ witness.afterResource then
            { plan with barriers := plan.barriers.set row witness }
          else plan

/-- An overlap that is the whole envelope of an access. -/
def coversWhole (current : PhysicalAccess) (overlap : Overlap) : Bool :=
  overlap.first == current.offset && overlap.last == current.envelopeEnd

/-- `record_conflict`: whether to look further back is what it says. -/
def recordConflict (prior : List PhysicalAccess) (current : PhysicalAccess) (plan : Plan)
    (beforeIndex : Nat) : Plan × Bool :=
  match prior[beforeIndex]? with
  | none => (plan, true)
  | some before =>
      match findOverlap before current with
      | none => (plan, true)
      | some overlap =>
          if ordersModes before current then
            (plan.record (dependencyOf before current) (witnessOf before current overlap),
              !coversWhole current overlap)
          else (plan, true)

/-! ### The analysis -/

/-- `find_resource`. -/
def findResource (resources : List Resource) (id : UInt32) : Option Resource :=
  if id = 0 then none else resources[id.toNat - 1]?

/-- The state of `analyze_indexed` between two accesses; the index of a group is found by the
group. -/
structure Analysis where
  plan : Plan
  prior : List PhysicalAccess
  groupRoots : UInt64 → Tree
  previousNode : Option UInt32

/-- The fields of an access that the index reads. -/
def PhysicalAccess.entry (access : PhysicalAccess) (index : Nat) : Entry where
  index := index
  offset := access.offset
  envelopeEnd := access.envelopeEnd

/-- A use of a resource. -/
def Lifetime.use (lifetime : Lifetime) (node : UInt32) : Lifetime :=
  { firstUse := min lifetime.firstUse node, lastUse := node }

/-- An accepted access: its conflicts are recorded, and it is put in the index of its group. -/
def Analysis.accept (analysis : Analysis) (current : PhysicalAccess) : Analysis :=
  let row := current.access.resource.toNat - 1
  let lifetimes := analysis.plan.lifetimes.modify row fun lifetime =>
    lifetime.use current.access.node
  let root := analysis.groupRoots current.aliasGroup
  { plan := visitCandidates root current.offset current.envelopeEnd
      (recordConflict analysis.prior current) { analysis.plan with lifetimes }
    prior := analysis.prior ++ [current]
    groupRoots := fun group =>
      if group = current.aliasGroup then
        insertAccess (current.entry analysis.prior.length) root
      else analysis.groupRoots group
    previousNode := some current.access.node }

/-- An access of the stream. -/
def analyzeAccess (resources : List Resource) (nodeCount : UInt32) (analysis : Analysis)
    (access : Access) : Except Reason Analysis :=
  match findResource resources access.resource with
  | none => Except.error .resourceAccessInvalid
  | some resource =>
      if access.node ≥ nodeCount ∨ access.node < analysis.previousNode.getD 0 then
        Except.error .resourceAccessInvalid
      else
        match physicalAccess resource access with
        | Except.error reason => Except.error reason
        | Except.ok current => Except.ok (analysis.accept current)

/-- The loop of `analyze_indexed` over the stream. -/
def analyzeAll (resources : List Resource) (nodeCount : UInt32) :
    List Access → Analysis → Except Reason Analysis
  | [], analysis => Except.ok analysis
  | access :: rest, analysis =>
      match analyzeAccess resources nodeCount analysis access with
      | Except.error reason => Except.error reason
      | Except.ok next => analyzeAll resources nodeCount rest next

/-- A resource in its place. -/
def Resource.accepted (resource : Resource) (index : Nat) : Bool :=
  resource.id.toNat == index + 1 && resource.aliasGroup != 0 &&
    checkedAdd resource.aliasOffsetBytes resource.bytes

/-- The state before the first access. -/
def Analysis.start (resources : List Resource) : Analysis where
  plan :=
    { lifetimes := resources.map fun _ => { firstUse := noNode, lastUse := noNode }
      dependencies := []
      barriers := [] }
  prior := []
  groupRoots := fun _ => .leaf
  previousNode := none

/-- `analyze`. -/
def analyze (resources : List Resource) (accesses : List Access) (nodeCount : UInt32) :
    Except Reason Plan :=
  if resources = [] ∨ (nodeCount = 0 ∧ accesses ≠ []) then
    Except.error .resourceGraphIncomplete
  else if resources.zipIdx.all (fun (resource, index) => resource.accepted index) = false then
    Except.error .resourceInvalid
  else
    match analyzeAll resources nodeCount accesses (Analysis.start resources) with
    | Except.error reason => Except.error reason
    | Except.ok analysis => Except.ok analysis.plan

/-- The placed form of an access of a stream. -/
def placeOf (resources : List Resource) (access : Access) : Option PhysicalAccess :=
  match findResource resources access.resource with
  | none => none
  | some resource => (physicalAccess resource access).toOption

/-- The placed accesses of a stream. -/
def placedAll (resources : List Resource) (accesses : List Access) : List PhysicalAccess :=
  accesses.filterMap (placeOf resources)

end RunD.Hazard
