/-
What a call does to budgets and reservations, and the books of a hierarchy.

`Effect` lists the outcomes of a call, with what was checked before each; a
call of a sound system has one of them and no sum or difference in it leaves
the words (`Sound.step_effect`).  The books say that the counters of a node
are the charges of the reservations that are alive at it or below.
-/
import RunD.StorageBudget

namespace RunD.Storage

open Lineage

variable {ε : Type}

/-! ### Measures -/

/-- What a budget counts in bytes; `used` is what is held against its capacity. -/
inductive Measure where
  | physical
  | allocated
  | reserved
  | used
  deriving DecidableEq, Repr

/-- The current value of a measure. -/
def State.now (state : State) : Measure → Nat
  | .physical => state.physicalBytes
  | .allocated => state.allocatedBytes
  | .reserved => state.reservedBytes
  | .used => state.reservedBytes + state.allocatedBytes

/-- The high-water mark of a measure. -/
def State.peak (state : State) : Measure → Nat
  | .physical => state.peakPhysicalBytes
  | .allocated => state.peakAllocatedBytes
  | .reserved => state.peakReservedBytes
  | .used => state.peakUsedBytes

/-- What a reservation is charged for: its maximum until it is committed, its usage after. -/
def Reservation.charge (reservation : Reservation) : Measure → Nat
  | .physical => if reservation.committed then reservation.usage.physicalBytes else 0
  | .allocated => if reservation.committed then reservation.usage.allocatedBytes else 0
  | .reserved => if reservation.committed then 0 else reservation.maxAllocatedBytes
  | .used =>
      if reservation.committed then reservation.usage.allocatedBytes
      else reservation.maxAllocatedBytes

/-- The parents of the nodes. -/
def System.parents (system : System) : Nat → Option Nat := links State.parent system.nodes

/-- What a node is charged for a reservation: all of it when the reservation was issued at the node
or below. -/
def Reservation.share (parents : Nat → Option Nat) (measure : Measure) (node : Nat)
    (reservation : Reservation) : Nat :=
  match reservation.state with
  | none => 0
  | some start => if node ∈ line parents start then reservation.charge measure else 0

/-- What a node is charged for all reservations. -/
def System.held (system : System) (measure : Measure) (node : Nat) : Nat :=
  (system.reservations.map (Reservation.share system.parents measure node)).sum

/-! ### Sums over reservations -/

theorem sum_map_append (f : Reservation → Nat) (xs : List Reservation) (x : Reservation) :
    ((xs ++ [x]).map f).sum = (xs.map f).sum + f x := by
  simp

theorem sum_map_zero {f : Reservation → Nat} {xs : List Reservation} (h : ∀ x ∈ xs, f x = 0) :
    (xs.map f).sum = 0 := by
  induction xs with
  | nil => rfl
  | cons x xs ih =>
      rw [List.map_cons, List.sum_cons, h x List.mem_cons_self,
        ih fun y hy => h y (List.mem_cons_of_mem x hy)]

theorem sum_map_set (f : Reservation → Nat) {xs : List Reservation} {k : Nat} {x : Reservation}
    (hx : xs[k]? = some x) (y : Reservation) :
    ((xs.set k y).map f).sum + f x = (xs.map f).sum + f y := by
  induction xs generalizing k with
  | nil => cases hx
  | cons z zs ih =>
      cases k with
      | zero =>
          injection hx with hx
          subst hx
          simp only [List.set_cons_zero, List.map_cons, List.sum_cons]
          omega
      | succ k =>
          have hrest := @ih k hx
          simp only [List.set_cons_succ, List.map_cons, List.sum_cons]
          omega

theorem le_sum_map (f : Reservation → Nat) {xs : List Reservation} {k : Nat} {x : Reservation}
    (hx : xs[k]? = some x) : f x ≤ (xs.map f).sum := by
  induction xs generalizing k with
  | nil => cases hx
  | cons z zs ih =>
      rw [List.map_cons, List.sum_cons]
      cases k with
      | zero =>
          injection hx with hx
          rw [hx]
          exact Nat.le_add_right _ _
      | succ k => exact Nat.le_trans (@ih k hx) (Nat.le_add_left _ _)

/-! ### Changes of a node -/

/-- What `Reserve` makes of a node. -/
def State.reserve (bytes : Nat) (state : State) : State :=
  { state with
    reservedBytes := state.reservedBytes + bytes
    peakReservedBytes := max state.peakReservedBytes (state.reservedBytes + bytes)
    peakUsedBytes :=
      max state.peakUsedBytes (state.reservedBytes + bytes + state.allocatedBytes)
    reservationCount := increment state.reservationCount }

/-- What `Commit` makes of a node. -/
def State.commit (reserved : Nat) (usage : Usage) (state : State) : State :=
  { state with
    reservedBytes := state.reservedBytes - reserved
    allocatedBytes := state.allocatedBytes + usage.allocatedBytes
    physicalBytes := state.physicalBytes + usage.physicalBytes
    peakAllocatedBytes :=
      max state.peakAllocatedBytes (state.allocatedBytes + usage.allocatedBytes)
    peakPhysicalBytes := max state.peakPhysicalBytes (state.physicalBytes + usage.physicalBytes)
    peakUsedBytes := max state.peakUsedBytes
      (state.reservedBytes - reserved + (state.allocatedBytes + usage.allocatedBytes))
    commitCount := increment state.commitCount }

/-- What `Refund` makes of a node. -/
def State.refund (reservation : Reservation) (state : State) : State :=
  { state with
    reservedBytes := state.reservedBytes - reservation.charge .reserved
    allocatedBytes := state.allocatedBytes - reservation.charge .allocated
    physicalBytes := state.physicalBytes - reservation.charge .physical
    refundCount := increment state.refundCount }

/-- A node within its capacity, with words. -/
structure State.Bounded (state : State) : Prop where
  room : state.allocatedBytes + state.reservedBytes ≤ state.capacityBytes
  capacity : state.capacityBytes < 2 ^ 64
  physical : state.physicalBytes < 2 ^ 64

/-- A node has room for a request. -/
def State.HasRoom (bytes : Nat) (state : State) : Prop :=
  state.allocatedBytes + state.reservedBytes + bytes ≤ state.capacityBytes

instance (bytes : Nat) (state : State) : Decidable (state.HasRoom bytes) :=
  inferInstanceAs (Decidable (_ ≤ _))

theorem admitsBytes_eq {state : State} (h : state.Bounded) (bytes : Nat) :
    (admitsBytes state bytes : Checked ε Bool) = Except.ok (decide (state.HasRoom bytes)) := by
  have hroom := h.room
  rw [admitsBytes, if_neg (by omega), sizeSub_eq (by omega), ok_bind, if_neg (by omega),
    sizeSub_eq (by omega), ok_bind]
  show Except.ok _ = _
  congr 1
  rw [decide_eq_decide, State.HasRoom]
  omega

theorem reserveNode_eq {state : State} (h : state.Bounded) {bytes : Nat}
    (hroom : state.HasRoom bytes) :
    (reserveNode bytes state : Checked ε State) = Except.ok (state.reserve bytes) := by
  have hcapacity := h.capacity
  rw [State.HasRoom] at hroom
  rw [reserveNode, sizeAdd_eq (by omega), ok_bind, sizeAdd_eq (by omega), ok_bind]
  rfl

theorem commitNode_eq {state : State} (h : state.Bounded) {reserved : Nat} {usage : Usage}
    (hreserved : reserved ≤ state.reservedBytes) (husage : usage.allocatedBytes ≤ reserved)
    (hadmits : admitsUsage state usage = true) :
    (commitNode reserved usage state : Checked ε State) =
      Except.ok (state.commit reserved usage) := by
  have hroom := h.room
  have hcapacity := h.capacity
  rw [admitsUsage, Bool.and_eq_true, decide_eq_true_iff, decide_eq_true_iff] at hadmits
  rw [commitNode, sizeSub_eq hreserved, ok_bind, sizeAdd_eq hadmits.2, ok_bind,
    sizeAdd_eq hadmits.1, ok_bind, sizeAdd_eq (by omega), ok_bind]
  rfl

theorem refundNode_eq {state : State} {reservation : Reservation}
    (h : ∀ measure, reservation.charge measure ≤ state.now measure) :
    (refundNode reservation.maxAllocatedBytes reservation.usage reservation.committed state :
      Checked ε State) = Except.ok (state.refund reservation) := by
  have hphysical := h .physical
  have hallocated := h .allocated
  have hreserved := h .reserved
  rw [refundNode, State.refund]
  simp only [Reservation.charge, State.now] at hphysical hallocated hreserved ⊢
  cases hcommitted : reservation.committed with
  | true =>
      simp only [hcommitted, if_true] at hphysical hallocated ⊢
      rw [sizeSub_eq hallocated, ok_bind, sizeSub_eq hphysical, ok_bind]
      rfl
  | false =>
      simp only [hcommitted, Bool.false_eq_true, if_false] at hreserved ⊢
      rw [sizeSub_eq hreserved, ok_bind]
      rfl

/-! ### Sound systems -/

/-- Links go down and name nodes, and the books hold. -/
structure Sound (system : System) : Prop where
  forest : Descends system.parents
  budgets : ∀ budget ∈ system.budgets, ∀ node, budget.state = some node →
    node < system.nodes.length
  live : ∀ reservation ∈ system.reservations, ∀ node, reservation.state = some node →
    node < system.nodes.length ∧ reservation.code = .ok
  books : ∀ (node : Nat) (state : State), system.nodes[node]? = some state → ∀ measure,
    state.now measure = system.held measure node
  bounded : ∀ (node : Nat) (state : State), system.nodes[node]? = some state → state.Bounded

/-- No node above a reservation is charged less than for it. -/
theorem Sound.charge_le {system : System} (h : Sound system) {index : Nat}
    {reservation : Reservation} (hget : system.reservations[index]? = some reservation)
    {start : Nat} (hstart : reservation.state = some start) {node : Nat} {state : State}
    (hnode : node ∈ line system.parents start) (hstate : system.nodes[node]? = some state)
    (measure : Measure) : reservation.charge measure ≤ state.now measure := by
  have hshare : reservation.share system.parents measure node = reservation.charge measure := by
    rw [Reservation.share, hstart]
    exact if_pos hnode
  rw [h.books node state hstate measure, ← hshare]
  exact le_sum_map _ hget

/-- The nodes from one up have room for a request. -/
def System.HasRoom (system : System) (start bytes : Nat) : Prop :=
  ∀ node ∈ line system.parents start, ∀ state, system.nodes[node]? = some state →
    state.HasRoom bytes

/-- The system after a walk that changed the nodes from one up. -/
def System.after (system : System) (start : Nat) (change : State → State) : System :=
  { system with nodes := changed (line system.parents start) change system.nodes }

theorem Sound.walk_eq {system : System} (h : Sound system) {start : Nat}
    (hstart : start < system.nodes.length) {step : State → Checked ε State}
    {change : State → State} (hlink : ∀ state, (change state).parent = state.parent)
    (hstep : ∀ node state, node ∈ line system.parents start → system.nodes[node]? = some state →
      step state = Except.ok (change state)) :
    system.walk (some start) step = Except.ok (system.after start change) := by
  have hclimb := climb_eq h.forest hstart hlink hstep (Nat.lt_succ_of_lt hstart)
  rw [System.walk, hclimb, ok_bind]
  rfl

theorem Sound.reject_eq {system : System} (h : Sound system) {start : Nat}
    (hstart : start < system.nodes.length) :
    (system.reject (some start) : Checked ε System) =
      Except.ok (system.after start rejectNode) :=
  h.walk_eq hstart (fun _ => rfl) fun _ _ _ _ => rfl

theorem Sound.admitted_eq {system : System} (h : Sound system) {start : Nat}
    (hstart : start < system.nodes.length) (bytes : Nat) :
    ∃ answer : Bool, (system.admitted (some start) bytes : Checked ε Bool) = Except.ok answer ∧
      (answer = true ↔ system.HasRoom start bytes) := by
  have hcheck : ∀ node state, node ∈ line system.parents start →
      system.nodes[node]? = some state →
      (admitsBytes state bytes : Checked ε Bool) = Except.ok (decide (state.HasRoom bytes)) :=
    fun node state _ hstate => admitsBytes_eq (h.bounded node state hstate) bytes
  refine ⟨_, climbAll_eq h.forest hstart hcheck (Nat.lt_succ_of_lt hstart), ?_⟩
  rw [List.all_eq_true]
  constructor
  · intro hall node hnode state hstate
    have := hall node hnode
    rw [hstate] at this
    exact of_decide_eq_true this
  · intro hroom node hnode
    rcases hstate : system.nodes[node]? with - | state
    · rfl
    · exact decide_eq_true (hroom node hnode state hstate)

theorem Sound.admittedUsage_eq {system : System} (h : Sound system) {start : Nat}
    (hstart : start < system.nodes.length) (usage : Usage) :
    ∃ answer : Bool, (system.admittedUsage (some start) usage : Checked ε Bool) =
        Except.ok answer ∧
      (answer = true → ∀ node ∈ line system.parents start, ∀ state,
        system.nodes[node]? = some state → admitsUsage state usage = true) := by
  have hcheck : ∀ node state, node ∈ line system.parents start →
      system.nodes[node]? = some state →
      (pure (admitsUsage state usage) : Checked ε Bool) = Except.ok (admitsUsage state usage) :=
    fun _ _ _ _ => rfl
  refine ⟨_, climbAll_eq h.forest hstart hcheck (Nat.lt_succ_of_lt hstart), ?_⟩
  rw [List.all_eq_true]
  intro hall node hnode state hstate
  have := hall node hnode
  rw [hstate] at this
  exact this

/-! ### The outcomes of a call -/

/-- The calls that can be refused. -/
def Op.Request : Op → Prop
  | .reserve _ _ | .partition _ _ | .commit _ _ _ => True
  | _ => False

/-- What a call did, and what was checked before. -/
inductive Effect (system : System) : Op → ReasonCode → System → Prop where
  | noNode {op : Op} (budget : Budget) (hop : ¬ op.Request) (hnone : budget.state = none)
      (hkeeps : ∀ index, op ≠ .refund index ∧ op ≠ .destroy index ∧ op ≠ .move index)
      (hassign : ∀ target source, op ≠ .moveAssign target source) :
      Effect system op .ok { system with budgets := system.budgets ++ [budget] }
  | newNode {op : Op} (parent : Option Nat) (capacityBytes : Nat) (hop : ¬ op.Request)
      (hparent : ∀ node, parent = some node → node < system.nodes.length)
      (hcapacity : capacityBytes < 2 ^ 64)
      (hkeeps : ∀ index, op ≠ .refund index ∧ op ≠ .destroy index ∧ op ≠ .move index)
      (hassign : ∀ target source, op ≠ .moveAssign target source) :
      Effect system op .ok
        { system with
          nodes := system.nodes ++ [{ parent, capacityBytes }]
          budgets := system.budgets ++ [{ state := some system.nodes.length, code := .ok }] }
  | reserved {budgetIndex : Nat} {bytes : UInt64} (budget : Budget) (start : Nat)
      (hbudget : system.budgets[budgetIndex]? = some budget) (hstate : budget.state = some start)
      (hok : budget.ok = true) (hstart : start < system.nodes.length)
      (hroom : system.HasRoom start bytes.toNat) :
      Effect system (.reserve budgetIndex bytes) .ok
        ((system.after start (State.reserve bytes.toNat)).give
          { state := some start, maxAllocatedBytes := bytes.toNat, code := .ok })
  | refused {op : Op} {code : ReasonCode} (hop : op.Request) (hcode : code ≠ .ok) (nodes : List State)
      (given : List Reservation)
      (hnodes : nodes = system.nodes ∨ ∃ start < system.nodes.length,
        nodes = changed (line system.parents start) rejectNode system.nodes)
      (hgiven : given = [] ∧ (∃ index physical allocated, op = .commit index physical allocated) ∨
        (∃ reservation : Reservation, given = [reservation] ∧ reservation.state = none) ∧
          ∀ index physical allocated, op ≠ .commit index physical allocated)
      (hreason : ∀ budgetIndex bytes budget start, op = .reserve budgetIndex bytes →
        system.budgets[budgetIndex]? = some budget → budget.ok = true →
        budget.state = some start → ¬ system.HasRoom start bytes.toNat) :
      Effect system op code
        { system with nodes, reservations := system.reservations ++ given }
  | partitioned {index : Nat} {bytes : UInt64} (reservation : Reservation) (start : Nat)
      (hget : system.reservations[index]? = some reservation)
      (hstate : reservation.state = some start) (huncommitted : reservation.committed = false)
      (hbytes : bytes.toNat ≤ reservation.maxAllocatedBytes) :
      Effect system (.partition index bytes) .ok
        ((system.put index
          { reservation with
            maxAllocatedBytes := reservation.maxAllocatedBytes - bytes.toNat }).give
          { state := some start, maxAllocatedBytes := bytes.toNat, code := .ok })
  | committed {index : Nat} {physical allocated : UInt64} (reservation : Reservation) (start : Nat)
      (hget : system.reservations[index]? = some reservation)
      (hstate : reservation.state = some start) (huncommitted : reservation.committed = false)
      (hallocated : allocated.toNat ≤ reservation.maxAllocatedBytes)
      (hadmits : ∀ node ∈ line system.parents start, ∀ state, system.nodes[node]? = some state →
        state.physicalBytes + physical.toNat < 2 ^ 64) :
      Effect system (.commit index physical allocated) .ok
        ((system.after start (State.commit reservation.maxAllocatedBytes
            { physicalBytes := physical.toNat, allocatedBytes := allocated.toNat })).put index
          { reservation with
            usage := { physicalBytes := physical.toNat, allocatedBytes := allocated.toNat }
            committed := true })
  | idle {op : Op} {code : ReasonCode}
      (hop : (∃ index, (op = .refund index ∨ op = .destroy index) ∧
          ∃ reservation, system.reservations[index]? = some reservation ∧
            reservation.state = none) ∨
        ∃ target, op = .moveAssign target target) :
      Effect system op code system
  | released {op : Op} {index : Nat} (hop : op = .refund index ∨ op = .destroy index)
      (reservation : Reservation) (start : Nat)
      (hget : system.reservations[index]? = some reservation)
      (hstate : reservation.state = some start) :
      Effect system op .ok
        ((system.after start (State.refund reservation)).put index .spent)
  | moved {index : Nat} (reservation : Reservation)
      (hget : system.reservations[index]? = some reservation) :
      Effect system (.move index) .ok (system.move index reservation)
  | assigned {target source : Nat} (old reservation : Reservation) (hne : target ≠ source)
      (hold : system.reservations[target]? = some old) (hnone : old.state = none)
      (hget : system.reservations[source]? = some reservation) :
      Effect system (.moveAssign target source) .ok
        ((system.put target reservation).put source .spent)
  | replaced {target source : Nat} (old reservation : Reservation) (start : Nat)
      (hne : target ≠ source) (hold : system.reservations[target]? = some old)
      (hstate : old.state = some start)
      (hget : system.reservations[source]? = some reservation) :
      Effect system (.moveAssign target source) .ok
        ((((system.after start (State.refund old)).put target .spent).put target reservation).put
          source .spent)

/-! ### Every call has an outcome -/

theorem Reservation.ok_eq {reservation : Reservation} {start : Nat}
    (hstate : reservation.state = some start) (hcode : reservation.code = .ok) :
    reservation.ok = true := by
  rw [Reservation.ok, hstate, hcode]
  rfl

theorem Reservation.state_of_ok {reservation : Reservation} (h : ¬ reservation.ok = false) :
    ∃ start, reservation.state = some start := by
  rw [Bool.not_eq_false, Reservation.ok, Bool.and_eq_true, Option.isSome_iff_exists] at h
  exact h.1

theorem Reservation.not_ok {reservation : Reservation} (hstate : reservation.state = none) :
    reservation.ok = false := by
  rw [Reservation.ok, hstate]
  rfl

theorem Budget.codeOf_ne_ok {budget : Budget} (h : budget.ok = false) : budget.codeOf ≠ .ok := by
  rw [Budget.codeOf]
  split_ifs with hcode
  · exact fun heq => ReasonCode.noConfusion heq
  · intro hok
    rw [Budget.ok, hok, Bool.and_eq_false_iff] at h
    rcases h with hstate | hne
    · rw [Option.isSome_eq_false_iff, Option.isNone_iff_eq_none] at hstate
      exact hcode ⟨hstate, hok⟩
    · exact absurd hne (by decide)

theorem exists_getElem? {α : Type} {xs : List α} {i : Nat} (h : i < xs.length) :
    ∃ x, xs[i]? = some x :=
  ⟨_, List.getElem?_eq_getElem h⟩

section Outcomes

variable {system : System}

theorem Sound.reserve_effect (h : Sound system) {budgetIndex : Nat} {budget : Budget}
    (hbudget : system.budgets[budgetIndex]? = some budget) (bytes : UInt64) :
    ∃ code after, (system.reserve budget bytes.toNat : Checked ε (ReasonCode × System)) =
        Except.ok (code, after) ∧ Effect system (.reserve budgetIndex bytes) code after := by
  rw [System.reserve]
  by_cases hok : budget.ok = false
  · rw [if_pos hok]
    refine ⟨_, _, rfl, Effect.refused (show Op.Request (.reserve budgetIndex bytes) from trivial)
      (Budget.codeOf_ne_ok hok) system.nodes
      [{ code := budget.codeOf }] (Or.inl rfl) (Or.inr ⟨⟨_, rfl, rfl⟩, nofun⟩) ?_⟩
    rintro _ _ other start ⟨⟩ hother hotherOk -
    rw [hbudget] at hother
    injection hother with hother
    rw [hother, hotherOk] at hok
    cases hok
  · rw [if_neg hok]
    rw [Bool.not_eq_false] at hok
    have hsome := hok
    rw [Budget.ok, Bool.and_eq_true, Option.isSome_iff_exists] at hsome
    obtain ⟨⟨start, hstate⟩, -⟩ := hsome
    have hstart := h.budgets budget (List.mem_of_getElem? hbudget) start hstate
    obtain ⟨answer, hanswer, hroom⟩ := h.admitted_eq (ε := ε) hstart bytes.toNat
    rw [hstate, hanswer, ok_bind]
    cases answer with
    | false =>
        rw [if_pos rfl, h.reject_eq hstart, ok_bind]
        refine ⟨_, _, rfl, Effect.refused
          (show Op.Request (.reserve budgetIndex bytes) from trivial)
          (fun heq => ReasonCode.noConfusion heq)
          (changed (line system.parents start) rejectNode system.nodes)
          [{ code := .storageCapacityExceeded }] (Or.inr ⟨start, hstart, rfl⟩)
          (Or.inr ⟨⟨_, rfl, rfl⟩, nofun⟩) ?_⟩
        rintro _ _ other node ⟨⟩ hother - hnode hhas
        rw [hbudget] at hother
        injection hother with hother
        rw [← hother, hstate] at hnode
        injection hnode with hnode
        exact Bool.noConfusion (hroom.mpr (hnode ▸ hhas))
    | true =>
        have hhas := hroom.mp rfl
        rw [if_neg Bool.noConfusion, h.walk_eq hstart
          (show ∀ state, (State.reserve bytes.toNat state).parent = state.parent from fun _ => rfl)
          fun node state hnode hget =>
            reserveNode_eq (h.bounded node state hget) (hhas node hnode state hget), ok_bind]
        exact ⟨_, _, rfl, Effect.reserved budget start hbudget hstate hok hstart hhas⟩

theorem Sound.partition_effect (h : Sound system) {index : Nat} {reservation : Reservation}
    (hget : system.reservations[index]? = some reservation) (bytes : UInt64) :
    ∃ code after, (system.partition index reservation bytes.toNat :
        Checked ε (ReasonCode × System)) = Except.ok (code, after) ∧
      Effect system (.partition index bytes) code after := by
  have hinvalid : ReasonCode.storageReservationInvalid ≠ .ok := fun heq => ReasonCode.noConfusion heq
  rw [System.partition]
  by_cases hok : reservation.ok = false ∨ reservation.committed
  · rw [if_pos hok]
    exact ⟨_, _, rfl, Effect.refused (show Op.Request (.partition index bytes) from trivial)
      hinvalid system.nodes
      [{ code := .storageReservationInvalid }] (Or.inl rfl) (Or.inr ⟨⟨_, rfl, rfl⟩, nofun⟩) nofun⟩
  · rw [if_neg hok]
    rw [not_or, Bool.not_eq_true] at hok
    obtain ⟨start, hstate⟩ := Reservation.state_of_ok hok.1
    have hstart := (h.live reservation (List.mem_of_getElem? hget) start hstate).1
    by_cases hbytes : bytes.toNat > reservation.maxAllocatedBytes
    · rw [if_pos hbytes, hstate, h.reject_eq hstart, ok_bind]
      exact ⟨_, _, rfl, Effect.refused (show Op.Request (.partition index bytes) from trivial)
        hinvalid (changed (line system.parents start) rejectNode system.nodes)
        [{ code := .storageReservationInvalid }] (Or.inr ⟨start, hstart, rfl⟩)
        (Or.inr ⟨⟨_, rfl, rfl⟩, nofun⟩) nofun⟩
    · have heffect := Effect.partitioned reservation start hget hstate hok.2
        (Nat.le_of_not_lt hbytes)
      rw [if_neg hbytes, sizeSub_eq (Nat.le_of_not_lt hbytes), ok_bind]
      refine ⟨_, _, rfl, ?_⟩
      rw [← hstate] at heffect
      exact heffect

theorem Sound.commit_effect (h : Sound system) {index : Nat} {reservation : Reservation}
    (hget : system.reservations[index]? = some reservation) (physical allocated : UInt64) :
    ∃ code after, (system.commit index reservation
        { physicalBytes := physical.toNat, allocatedBytes := allocated.toNat } :
        Checked ε (ReasonCode × System)) = Except.ok (code, after) ∧
      Effect system (.commit index physical allocated) code after := by
  have hunchanged : ∀ {code : ReasonCode}, code ≠ .ok →
      Effect system (.commit index physical allocated) code system := by
    intro code hcode
    have heffect := @Effect.refused system (.commit index physical allocated) code trivial hcode
      system.nodes [] (Or.inl rfl) (Or.inl ⟨rfl, _, _, _, rfl⟩) nofun
    rw [List.append_nil] at heffect
    exact heffect
  have hrejected : ∀ {start : Nat}, start < system.nodes.length →
      Effect system (.commit index physical allocated) .storageCommitInvalid
        (system.after start rejectNode) := by
    intro start hstart
    have heffect := @Effect.refused system (.commit index physical allocated)
      .storageCommitInvalid trivial (fun heq => ReasonCode.noConfusion heq)
      (changed (line system.parents start) rejectNode system.nodes) []
      (Or.inr ⟨start, hstart, rfl⟩) (Or.inl ⟨rfl, _, _, _, rfl⟩) nofun
    rw [List.append_nil] at heffect
    exact heffect
  rw [System.commit]
  by_cases hok : reservation.ok = false ∨ reservation.committed
  · rw [if_pos hok]
    exact ⟨_, _, rfl, hunchanged fun heq => ReasonCode.noConfusion heq⟩
  · rw [if_neg hok]
    rw [not_or, Bool.not_eq_true] at hok
    obtain ⟨start, hstate⟩ := Reservation.state_of_ok hok.1
    have hstart := (h.live reservation (List.mem_of_getElem? hget) start hstate).1
    by_cases hbytes : allocated.toNat > reservation.maxAllocatedBytes
    · rw [if_pos hbytes, hstate, h.reject_eq hstart, ok_bind]
      exact ⟨_, _, rfl, hrejected hstart⟩
    · obtain ⟨answer, hanswer, hadmits⟩ := h.admittedUsage_eq (ε := ε) hstart
        { physicalBytes := physical.toNat, allocatedBytes := allocated.toNat }
      rw [if_neg hbytes, hstate, hanswer, ok_bind]
      cases answer with
      | false =>
          rw [if_pos rfl, h.reject_eq hstart, ok_bind]
          exact ⟨_, _, rfl, hrejected hstart⟩
      | true =>
          have hall := hadmits rfl
          have hcharge : reservation.charge .reserved = reservation.maxAllocatedBytes := by
            rw [Reservation.charge, hok.2]
            rfl
          rw [if_neg Bool.noConfusion, h.walk_eq hstart
            (show ∀ state, (State.commit reservation.maxAllocatedBytes
              { physicalBytes := physical.toNat, allocatedBytes := allocated.toNat } state).parent =
                state.parent from fun _ => rfl)
            fun node state hnode hnodeGet =>
              commitNode_eq (h.bounded node state hnodeGet)
                (hcharge ▸ h.charge_le hget hstate hnode hnodeGet .reserved)
                (Nat.le_of_not_lt hbytes) (hall node hnode state hnodeGet), ok_bind]
          have hwords : ∀ node ∈ line system.parents start, ∀ state,
              system.nodes[node]? = some state → state.physicalBytes + physical.toNat < 2 ^ 64 := by
            intro node hnode state hnodeGet
            have husage := hall node hnode state hnodeGet
            rw [admitsUsage, Bool.and_eq_true, decide_eq_true_iff] at husage
            exact husage.1
          have heffect := Effect.committed reservation start hget hstate hok.2
            (Nat.le_of_not_lt hbytes) hwords
          refine ⟨_, _, rfl, ?_⟩
          rw [← hstate]
          exact heffect

/-- A release takes off the charge of a reservation that is alive and leaves a spent one. -/
theorem Sound.release_eq (h : Sound system) {index : Nat} {reservation : Reservation}
    (hget : system.reservations[index]? = some reservation) {start : Nat}
    (hstate : reservation.state = some start) :
    (system.release index reservation : Checked ε System) =
      Except.ok ((system.after start (State.refund reservation)).put index .spent) := by
  have hstart := (h.live reservation (List.mem_of_getElem? hget) start hstate).1
  rw [System.release, if_neg (by rw [hstate]; exact Option.some_ne_none start), hstate,
    h.walk_eq hstart (show ∀ state, (State.refund reservation state).parent = state.parent from
      fun _ => rfl) fun node state hnode hnodeGet =>
        refundNode_eq fun measure => h.charge_le hget hstate hnode hnodeGet measure, ok_bind]
  rfl

theorem System.release_none {index : Nat} {reservation : Reservation}
    (hstate : reservation.state = none) :
    (system.release index reservation : Checked ε System) = Except.ok system :=
  if_pos hstate

theorem Sound.child_effect (h : Sound system) {budgetIndex : Nat} {budget : Budget}
    (hbudget : system.budgets[budgetIndex]? = some budget) (capacityBytes : UInt64)
    (allocates : Bool) :
    ∃ after, (system.child budget capacityBytes.toNat allocates : Checked ε System) =
        Except.ok after ∧
      Effect system (.child budgetIndex capacityBytes allocates) .ok after := by
  have hfails : ∀ code : ReasonCode, Effect system (.child budgetIndex capacityBytes allocates) .ok
      { system with budgets := system.budgets ++ [{ code }] } :=
    fun code => Effect.noNode { code } (fun hop => hop) rfl (fun _ => ⟨nofun, nofun, nofun⟩) nofun
  rw [System.child]
  cases hok : budget.ok with
  | false => exact ⟨_, rfl, hfails _⟩
  | true =>
      rcases hstate : budget.state with - | node
      · exact ⟨_, rfl, hfails _⟩
      · have hnode := h.budgets budget (List.mem_of_getElem? hbudget) node hstate
        dsimp only
        rw [fetch_of_lt (List.getElem?_eq_getElem hnode), ok_bind]
        refine ⟨_, rfl, ?_⟩
        split_ifs
        · exact hfails _
        · refine Effect.newNode (some node) capacityBytes.toNat (fun hop => hop) ?_
            capacityBytes.toNat_lt (fun _ => ⟨nofun, nofun, nofun⟩) nofun
          rintro other ⟨⟩
          exact hnode
        · exact hfails _

theorem create_effect (capacityBytes : UInt64) (allocates : Bool) :
    Effect system (.create capacityBytes allocates) .ok
      (system.create capacityBytes.toNat allocates) := by
  rw [System.create]
  split_ifs
  · exact Effect.noNode {} (fun hop => hop) rfl (fun _ => ⟨nofun, nofun, nofun⟩) nofun
  · exact Effect.newNode none capacityBytes.toNat (fun hop => hop) nofun capacityBytes.toNat_lt
      (fun _ => ⟨nofun, nofun, nofun⟩) nofun
  · exact Effect.noNode { state := none, code := .storageBudgetAllocationFailed } (fun hop => hop) rfl
      (fun _ => ⟨nofun, nofun, nofun⟩) nofun

/-- **Every call of a sound system has an outcome**: nothing in it leaves the words. -/
theorem Sound.step_effect (h : Sound system) {op : Op} (hop : op.Names system) :
    ∃ code after, (system.step op : Checked ε (ReasonCode × System)) = Except.ok (code, after) ∧
      Effect system op code after := by
  cases op with
  | create capacityBytes allocates => exact ⟨_, _, rfl, create_effect capacityBytes allocates⟩
  | child budgetIndex capacityBytes allocates =>
      obtain ⟨budget, hbudget⟩ := exists_getElem? (show budgetIndex < system.budgets.length from hop)
      obtain ⟨after, hafter, heffect⟩ := h.child_effect (ε := ε) hbudget capacityBytes allocates
      refine ⟨_, after, ?_, heffect⟩
      rw [System.step, fetch_of_lt hbudget, ok_bind, hafter]
      rfl
  | reserve budgetIndex bytes =>
      obtain ⟨budget, hbudget⟩ := exists_getElem? (show budgetIndex < system.budgets.length from hop)
      rw [System.step, fetch_of_lt hbudget, ok_bind]
      exact h.reserve_effect hbudget bytes
  | partition index bytes =>
      obtain ⟨reservation, hget⟩ := exists_getElem? (show index < system.reservations.length from hop)
      rw [System.step, fetch_of_lt hget, ok_bind]
      exact h.partition_effect hget bytes
  | commit index physical allocated =>
      obtain ⟨reservation, hget⟩ := exists_getElem? (show index < system.reservations.length from hop)
      rw [System.step, fetch_of_lt hget, ok_bind]
      exact h.commit_effect hget physical allocated
  | refund index =>
      obtain ⟨reservation, hget⟩ := exists_getElem? (show index < system.reservations.length from hop)
      rw [System.step, fetch_of_lt hget, ok_bind, System.refund]
      rcases hstate : reservation.state with - | start
      · rw [if_pos (Reservation.not_ok hstate)]
        exact ⟨_, _, rfl, Effect.idle (Or.inl ⟨index, Or.inl rfl, _, hget, hstate⟩)⟩
      · have hcode := (h.live _ (List.mem_of_getElem? hget) start hstate).2
        rw [Reservation.ok_eq hstate hcode, if_neg Bool.noConfusion, h.release_eq hget hstate,
          ok_bind]
        exact ⟨_, _, rfl, Effect.released (Or.inl rfl) _ start hget hstate⟩
  | move index =>
      obtain ⟨reservation, hget⟩ := exists_getElem? (show index < system.reservations.length from hop)
      rw [System.step, fetch_of_lt hget, ok_bind]
      exact ⟨_, _, rfl, Effect.moved _ hget⟩
  | moveAssign target source =>
      obtain ⟨old, hold⟩ := exists_getElem? (show target < system.reservations.length from hop.1)
      obtain ⟨reservation, hget⟩ :=
        exists_getElem? (show source < system.reservations.length from hop.2)
      rw [System.step, fetch_of_lt hold, ok_bind, fetch_of_lt hget, ok_bind, System.moveAssign]
      by_cases hsame : target = source
      · rw [if_pos hsame]
        exact ⟨_, _, rfl, Effect.idle (Or.inr ⟨target, by rw [hsame]⟩)⟩
      · rw [if_neg hsame]
        rcases hstate : old.state with - | start
        · rw [System.release_none hstate, ok_bind]
          exact ⟨_, _, rfl, Effect.assigned old reservation hsame hold hstate hget⟩
        · rw [h.release_eq hold hstate, ok_bind]
          exact ⟨_, _, rfl, Effect.replaced old reservation start hsame hold hstate hget⟩
  | destroy index =>
      obtain ⟨reservation, hget⟩ := exists_getElem? (show index < system.reservations.length from hop)
      rw [System.step, fetch_of_lt hget, ok_bind]
      rcases hstate : reservation.state with - | start
      · rw [System.release_none hstate]
        exact ⟨_, _, rfl, Effect.idle (Or.inl ⟨index, Or.inr rfl, _, hget, hstate⟩)⟩
      · rw [h.release_eq hget hstate]
        exact ⟨_, _, rfl, Effect.released (Or.inr rfl) _ start hget hstate⟩

end Outcomes

end RunD.Storage
