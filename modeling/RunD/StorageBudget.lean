/-
Storage budgets and reservations.

Budgets form a forest; each is a node with its counters, and an operation at a
node is charged to the node and its ancestors.  A reservation is the owner of
one charge: it is issued by `reserve` or split off by `partition`, `commit`
turns its maximum into the usage that was measured, and its release takes off
what it is charged for.  Every operation runs under the lock of its hierarchy
and is one step.

Sums and differences are checked: one that leaves the 64-bit words is a fault.
-/
import RunD.CheckedSize
import RunD.Lineage

namespace RunD.Storage

open Lineage

/-! ### Records -/

/-- The reason codes of a storage operation. -/
inductive ReasonCode where
  | ok
  | storageBudgetInvalid
  | storageBudgetAllocationFailed
  | storageCapacityExceeded
  | storageReservationInvalid
  | storageCommitInvalid
  deriving DecidableEq, Repr

/-- `Usage`. -/
structure Usage where
  physicalBytes : Nat := 0
  allocatedBytes : Nat := 0
  deriving DecidableEq, Repr

/-- `State`: a node of a hierarchy. -/
structure State where
  parent : Option Nat
  capacityBytes : Nat
  physicalBytes : Nat := 0
  allocatedBytes : Nat := 0
  reservedBytes : Nat := 0
  peakPhysicalBytes : Nat := 0
  peakAllocatedBytes : Nat := 0
  peakReservedBytes : Nat := 0
  peakUsedBytes : Nat := 0
  reservationCount : Nat := 0
  commitCount : Nat := 0
  refundCount : Nat := 0
  rejectionCount : Nat := 0
  deriving DecidableEq, Repr

/-- `Budget`. -/
structure Budget where
  state : Option Nat := none
  code : ReasonCode := .storageBudgetInvalid
  deriving DecidableEq, Repr

/-- `Reservation`. -/
structure Reservation where
  state : Option Nat := none
  maxAllocatedBytes : Nat := 0
  usage : Usage := {}
  code : ReasonCode := .storageReservationInvalid
  committed : Bool := false
  deriving DecidableEq, Repr

/-- `Budget::ok`. -/
def Budget.ok (budget : Budget) : Bool := budget.state.isSome && budget.code == .ok

/-- `Budget::code`. -/
def Budget.codeOf (budget : Budget) : ReasonCode :=
  if budget.state = none ∧ budget.code = .ok then .storageBudgetInvalid else budget.code

/-- `Reservation::ok`. -/
def Reservation.ok (reservation : Reservation) : Bool :=
  reservation.state.isSome && reservation.code == .ok

/-- What the members of a reservation are after it was moved from or released. -/
def Reservation.spent : Reservation := {}

/-! ### Counters of one node -/

variable {ε : Type}

def wordMax : Nat := 2 ^ 64 - 1

/-- `Increment`. -/
def increment (value : Nat) : Nat := if value ≠ wordMax then value + 1 else value

/-- `Admits`, of a reservation. -/
def admitsBytes (state : State) (bytes : Nat) : Checked ε Bool :=
  if state.allocatedBytes > state.capacityBytes then pure false
  else do
    let room ← sizeSub state.capacityBytes state.allocatedBytes
    if state.reservedBytes > room then pure false
    else do
      let free ← sizeSub room state.reservedBytes
      pure (decide (bytes ≤ free))

/-- `Admits`, of a commit. -/
def admitsUsage (state : State) (usage : Usage) : Bool :=
  decide (state.physicalBytes + usage.physicalBytes < 2 ^ 64) &&
    decide (state.allocatedBytes + usage.allocatedBytes < 2 ^ 64)

/-- The body of `Reject`. -/
def rejectNode (state : State) : State :=
  { state with rejectionCount := increment state.rejectionCount }

/-- The body of `Reserve`. -/
def reserveNode (bytes : Nat) (state : State) : Checked ε State := do
  let reserved ← sizeAdd state.reservedBytes bytes
  let used ← sizeAdd reserved state.allocatedBytes
  pure { state with
    reservedBytes := reserved
    peakReservedBytes := max state.peakReservedBytes reserved
    peakUsedBytes := max state.peakUsedBytes used
    reservationCount := increment state.reservationCount }

/-- The body of `Commit`. -/
def commitNode (reserved : Nat) (usage : Usage) (state : State) : Checked ε State := do
  let reservedBytes ← sizeSub state.reservedBytes reserved
  let allocatedBytes ← sizeAdd state.allocatedBytes usage.allocatedBytes
  let physicalBytes ← sizeAdd state.physicalBytes usage.physicalBytes
  let used ← sizeAdd reservedBytes allocatedBytes
  pure { state with
    reservedBytes
    allocatedBytes
    physicalBytes
    peakAllocatedBytes := max state.peakAllocatedBytes allocatedBytes
    peakPhysicalBytes := max state.peakPhysicalBytes physicalBytes
    peakUsedBytes := max state.peakUsedBytes used
    commitCount := increment state.commitCount }

/-- The body of `Refund`. -/
def refundNode (reserved : Nat) (usage : Usage) (committed : Bool) (state : State) :
    Checked ε State :=
  if committed then do
    let allocatedBytes ← sizeSub state.allocatedBytes usage.allocatedBytes
    let physicalBytes ← sizeSub state.physicalBytes usage.physicalBytes
    pure { state with allocatedBytes, physicalBytes, refundCount := increment state.refundCount }
  else do
    let reservedBytes ← sizeSub state.reservedBytes reserved
    pure { state with reservedBytes, refundCount := increment state.refundCount }

/-! ### The system -/

/-- The nodes of all hierarchies, and the budgets and reservations that the program has. -/
structure System where
  nodes : List State := []
  budgets : List Budget := []
  reservations : List Reservation := []
  deriving DecidableEq, Repr

namespace System

/-- A walk over a node and its ancestors that changes them. -/
def walk (system : System) (start : Option Nat) (change : State → Checked ε State) :
    Checked ε System := do
  let nodes ← climb State.parent change (system.nodes.length + 1) start system.nodes
  pure { system with nodes }

/-- `Reject`. -/
def reject (system : System) (start : Option Nat) : Checked ε System :=
  system.walk start fun state => pure (rejectNode state)

/-- The loop over a node and its ancestors before a reservation. -/
def admitted (system : System) (start : Option Nat) (bytes : Nat) : Checked ε Bool :=
  climbAll State.parent (fun state => admitsBytes state bytes) system.nodes
    (system.nodes.length + 1) start

/-- The loop over a node and its ancestors before a commit. -/
def admittedUsage (system : System) (start : Option Nat) (usage : Usage) : Checked ε Bool :=
  climbAll State.parent (fun state => pure (admitsUsage state usage)) system.nodes
    (system.nodes.length + 1) start

/-- A value that the program gets back. -/
def give (system : System) (reservation : Reservation) : System :=
  { system with reservations := system.reservations ++ [reservation] }

/-- A reservation of the program changed. -/
def put (system : System) (index : Nat) (reservation : Reservation) : System :=
  { system with reservations := system.reservations.set index reservation }

/-- `Budget::Budget(capacity_bytes)`; `allocates` says whether the memory is there. -/
def create (system : System) (capacityBytes : Nat) (allocates : Bool) : System :=
  if capacityBytes = 0 then { system with budgets := system.budgets ++ [{}] }
  else if allocates then
    { system with
      nodes := system.nodes ++ [{ parent := none, capacityBytes }]
      budgets := system.budgets ++ [{ state := some system.nodes.length, code := .ok }] }
  else
    { system with
      budgets := system.budgets ++ [{ state := none, code := .storageBudgetAllocationFailed }] }

/-- `Budget::child`. -/
def child (system : System) (budget : Budget) (capacityBytes : Nat) (allocates : Bool) :
    Checked ε System :=
  match budget.ok, budget.state with
  | true, some node => do
      let state ← fetch system.nodes node
      pure (
        if capacityBytes = 0 ∨ capacityBytes > state.capacityBytes then
          { system with budgets := system.budgets ++ [{ code := .storageBudgetInvalid }] }
        else if allocates then
          { system with
            nodes := system.nodes ++ [{ parent := some node, capacityBytes }]
            budgets := system.budgets ++ [{ state := some system.nodes.length, code := .ok }] }
        else
          { system with
            budgets := system.budgets ++ [{ code := .storageBudgetAllocationFailed }] })
  | _, _ => pure { system with budgets := system.budgets ++ [{ code := budget.codeOf }] }

/-- `Budget::reserve`; the code is the one of the reservation that is returned. -/
def reserve (system : System) (budget : Budget) (maxAllocatedBytes : Nat) :
    Checked ε (ReasonCode × System) :=
  if budget.ok = false then pure (budget.codeOf, system.give { code := budget.codeOf })
  else do
    let admits ← system.admitted budget.state maxAllocatedBytes
    if admits = false then do
      let system ← system.reject budget.state
      pure (.storageCapacityExceeded, system.give { code := .storageCapacityExceeded })
    else do
      let system ← system.walk budget.state (reserveNode maxAllocatedBytes)
      pure (.ok, system.give { state := budget.state, maxAllocatedBytes, code := .ok })

/-- `Reservation::partition`. -/
def partition (system : System) (index : Nat) (reservation : Reservation)
    (maxAllocatedBytes : Nat) : Checked ε (ReasonCode × System) :=
  if reservation.ok = false ∨ reservation.committed then
    pure (.storageReservationInvalid, system.give { code := .storageReservationInvalid })
  else if maxAllocatedBytes > reservation.maxAllocatedBytes then do
    let system ← system.reject reservation.state
    pure (.storageReservationInvalid, system.give { code := .storageReservationInvalid })
  else do
    let remainder ← sizeSub reservation.maxAllocatedBytes maxAllocatedBytes
    let system := system.put index { reservation with maxAllocatedBytes := remainder }
    pure (.ok, system.give { state := reservation.state, maxAllocatedBytes, code := .ok })

/-- `Reservation::commit`. -/
def commit (system : System) (index : Nat) (reservation : Reservation) (usage : Usage) :
    Checked ε (ReasonCode × System) :=
  if reservation.ok = false ∨ reservation.committed then pure (.storageReservationInvalid, system)
  else if usage.allocatedBytes > reservation.maxAllocatedBytes then do
    let system ← system.reject reservation.state
    pure (.storageCommitInvalid, system)
  else do
    let admits ← system.admittedUsage reservation.state usage
    if admits = false then do
      let system ← system.reject reservation.state
      pure (.storageCommitInvalid, system)
    else do
      let system ←
        system.walk reservation.state (commitNode reservation.maxAllocatedBytes usage)
      pure (.ok, system.put index { reservation with usage, committed := true })

/-- `Reservation::release`. -/
def release (system : System) (index : Nat) (reservation : Reservation) : Checked ε System :=
  if reservation.state = none then pure system
  else do
    let system ← system.walk reservation.state
      (refundNode reservation.maxAllocatedBytes reservation.usage reservation.committed)
    pure (system.put index .spent)

/-- `Reservation::refund`. -/
def refund (system : System) (index : Nat) (reservation : Reservation) :
    Checked ε (ReasonCode × System) :=
  if reservation.ok = false then pure (.storageReservationInvalid, system)
  else do
    let system ← system.release index reservation
    pure (.ok, system)

/-- The move constructor. -/
def move (system : System) (index : Nat) (reservation : Reservation) : System :=
  (system.put index .spent).give reservation

/-- The move assignment. -/
def moveAssign (system : System) (target source : Nat) (old moved : Reservation) :
    Checked ε System :=
  if target = source then pure system
  else do
    let system ← system.release target old
    pure ((system.put target moved).put source .spent)

end System

/-! ### Runs -/

/-- The calls a program can make; a number names one of its budgets or reservations. -/
inductive Op where
  | create (capacityBytes : UInt64) (allocates : Bool)
  | child (budget : Nat) (capacityBytes : UInt64) (allocates : Bool)
  | reserve (budget : Nat) (maxAllocatedBytes : UInt64)
  | partition (reservation : Nat) (maxAllocatedBytes : UInt64)
  | commit (reservation : Nat) (physicalBytes allocatedBytes : UInt64)
  | refund (reservation : Nat)
  | move (reservation : Nat)
  | moveAssign (target source : Nat)
  | destroy (reservation : Nat)
  deriving DecidableEq, Repr

/-- One call, with the code of what it returns. -/
def System.step (system : System) : Op → Checked ε (ReasonCode × System)
  | .create capacityBytes allocates =>
      pure (.ok, system.create capacityBytes.toNat allocates)
  | .child budget capacityBytes allocates => do
      let budget ← fetch system.budgets budget
      let system ← system.child budget capacityBytes.toNat allocates
      pure (.ok, system)
  | .reserve budget maxAllocatedBytes => do
      let budget ← fetch system.budgets budget
      system.reserve budget maxAllocatedBytes.toNat
  | .partition index maxAllocatedBytes => do
      let reservation ← fetch system.reservations index
      system.partition index reservation maxAllocatedBytes.toNat
  | .commit index physicalBytes allocatedBytes => do
      let reservation ← fetch system.reservations index
      system.commit index reservation
        { physicalBytes := physicalBytes.toNat, allocatedBytes := allocatedBytes.toNat }
  | .refund index => do
      let reservation ← fetch system.reservations index
      system.refund index reservation
  | .move index => do
      let reservation ← fetch system.reservations index
      pure (.ok, system.move index reservation)
  | .moveAssign target source => do
      let old ← fetch system.reservations target
      let moved ← fetch system.reservations source
      let system ← system.moveAssign target source old moved
      pure (.ok, system)
  | .destroy index => do
      let reservation ← fetch system.reservations index
      let system ← system.release index reservation
      pure (.ok, system)

/-- The calls name budgets and reservations that the program has. -/
def Op.Names (system : System) : Op → Prop
  | .create _ _ => True
  | .child budget _ _ | .reserve budget _ => budget < system.budgets.length
  | .partition index _ | .commit index _ _ | .refund index | .move index | .destroy index =>
      index < system.reservations.length
  | .moveAssign target source =>
      target < system.reservations.length ∧ source < system.reservations.length

end RunD.Storage
