/-
What every call keeps of a hierarchy of storage budgets.

The books and the bounds are kept because a call exchanges one charge for
another at a node and at all its ancestors (`Sound.exchange`).  The high-water
marks are raised to the new values and never otherwise changed (`Evolves`).
-/
import RunD.StorageLedger

namespace RunD.Storage

open Lineage

/-! ### What a call keeps -/

section Keeps

variable {system : System}

theorem parents_after {start : Nat} {change : State → State}
    (hlink : ∀ state, (change state).parent = state.parent) :
    (system.after start change).parents = system.parents :=
  links_changed hlink _

theorem getElem?_after (start node : Nat) (change : State → State) :
    (system.after start change).nodes[node]? = system.nodes[node]?.map fun state =>
      if node ∈ line system.parents start then change state else state :=
  getElem?_changed _ node

/-- Reservations rearranged with the same charges everywhere. -/
theorem Sound.relist (h : Sound system) {reservations : List Reservation}
    (hlive : ∀ reservation ∈ reservations, ∀ node, reservation.state = some node →
      node < system.nodes.length ∧ reservation.code = .ok)
    (hheld : ∀ measure node,
      (reservations.map (Reservation.share system.parents measure node)).sum =
        system.held measure node) :
    Sound { system with reservations } where
  forest := h.forest
  budgets := h.budgets
  live := hlive
  books node state hstate measure := (h.books node state hstate measure).trans (hheld measure node).symm
  bounded := h.bounded

/-- A charge exchanged for another at a node and above. -/
theorem Sound.exchange (h : Sound system) {start : Nat} {change : State → State}
    (hlink : ∀ state, (change state).parent = state.parent) {reservations : List Reservation}
    {before after : Measure → Nat}
    (hlive : ∀ reservation ∈ reservations, ∀ node, reservation.state = some node →
      node < system.nodes.length ∧ reservation.code = .ok)
    (hnow : ∀ node ∈ line system.parents start, ∀ state, system.nodes[node]? = some state →
      (∀ measure, (change state).now measure + before measure =
        state.now measure + after measure) ∧ (change state).Bounded)
    (hheld : ∀ measure node,
      (reservations.map (Reservation.share system.parents measure node)).sum +
          (if node ∈ line system.parents start then before measure else 0) =
        system.held measure node +
          (if node ∈ line system.parents start then after measure else 0)) :
    Sound { system.after start change with reservations } := by
  have hparents : (system.after start change).parents = system.parents := parents_after hlink
  constructor
  · show Descends (system.after start change).parents
    rw [hparents]
    exact h.forest
  · intro budget hbudget node hnode
    rw [show ({ system.after start change with reservations } : System).nodes.length =
      system.nodes.length from length_changed _]
    exact h.budgets budget hbudget node hnode
  · intro reservation hreservation node hnode
    rw [show ({ system.after start change with reservations } : System).nodes.length =
      system.nodes.length from length_changed _]
    exact hlive reservation hreservation node hnode
  · intro node state hstate measure
    show _ = (reservations.map (Reservation.share (system.after start change).parents measure
      node)).sum
    rw [hparents]
    have hsum := hheld measure node
    have hget : (system.after start change).nodes[node]? = some state := hstate
    rw [getElem?_after, Option.map_eq_some_iff] at hget
    obtain ⟨old, hold, rfl⟩ := hget
    have hbooks := h.books node old hold measure
    split_ifs at hsum ⊢ with hmem
    · have := (hnow node hmem old hold).1 measure
      omega
    · omega
  · intro node state hstate
    have hget : (system.after start change).nodes[node]? = some state := hstate
    rw [getElem?_after, Option.map_eq_some_iff] at hget
    obtain ⟨old, hold, rfl⟩ := hget
    split_ifs with hmem
    · exact (hnow node hmem old hold).2
    · exact h.bounded node old hold

theorem Sound.live_set (h : Sound system) {index : Nat} {reservation : Reservation}
    (hnew : ∀ node, reservation.state = some node →
      node < system.nodes.length ∧ reservation.code = .ok) :
    ∀ other ∈ system.reservations.set index reservation, ∀ node, other.state = some node →
      node < system.nodes.length ∧ other.code = .ok := by
  intro other hother
  rcases List.mem_or_eq_of_mem_set hother with hmem | rfl
  · exact h.live other hmem
  · exact hnew

theorem live_append {reservations : List Reservation} {reservation : Reservation} {length : Nat}
    (h : ∀ other ∈ reservations, ∀ node, other.state = some node →
      node < length ∧ other.code = .ok)
    (hnew : ∀ node, reservation.state = some node → node < length ∧ reservation.code = .ok) :
    ∀ other ∈ reservations ++ [reservation], ∀ node, other.state = some node →
      node < length ∧ other.code = .ok := by
  intro other hother
  rcases List.mem_append.mp hother with hmem | hmem
  · exact h other hmem
  · rw [List.mem_singleton] at hmem
    rw [hmem]
    exact hnew

theorem share_none {reservation : Reservation} (h : reservation.state = none)
    (parents : Nat → Option Nat) (measure : Measure) (node : Nat) :
    reservation.share parents measure node = 0 := by
  rw [Reservation.share, h]

theorem share_some {reservation : Reservation} {start : Nat} (h : reservation.state = some start)
    (parents : Nat → Option Nat) (measure : Measure) (node : Nat) :
    reservation.share parents measure node =
      if node ∈ line parents start then reservation.charge measure else 0 := by
  rw [Reservation.share, h]

theorem Sound.released (h : Sound system) {index start : Nat} {reservation : Reservation}
    (hget : system.reservations[index]? = some reservation)
    (hstate : reservation.state = some start) :
    Sound ((system.after start (State.refund reservation)).put index .spent) := by
  refine @Sound.exchange system h start (State.refund reservation) (fun _ => rfl)
    (system.reservations.set index .spent) reservation.charge (fun _ => 0)
    (h.live_set nofun) ?_ ?_
  · intro node hnode state hnodeGet
    have hcharge := h.charge_le hget hstate hnode hnodeGet
    have hphysical := hcharge .physical
    have hallocated := hcharge .allocated
    have hreserved := hcharge .reserved
    have hbounded := h.bounded node state hnodeGet
    have hroom := hbounded.room
    have hwords := hbounded.physical
    constructor
    · intro measure
      have hle := hcharge measure
      cases measure with
      | physical => exact Nat.sub_add_cancel hle
      | allocated => exact Nat.sub_add_cancel hle
      | reserved => exact Nat.sub_add_cancel hle
      | used =>
          have hsum : reservation.charge .used =
              reservation.charge .reserved + reservation.charge .allocated := by
            simp only [Reservation.charge]
            split_ifs
            · rw [Nat.zero_add]
            · rfl
          rw [hsum]
          simp only [State.now, State.refund] at hallocated hreserved ⊢
          omega
    · constructor
      · show state.allocatedBytes - _ + (state.reservedBytes - _) ≤ state.capacityBytes
        omega
      · exact hbounded.capacity
      · show state.physicalBytes - _ < 2 ^ 64
        omega
  · intro measure node
    have hsum := sum_map_set (Reservation.share system.parents measure node) hget .spent
    rw [share_some hstate, share_none rfl] at hsum
    rw [ite_self]
    exact hsum

theorem Sound.reserved (h : Sound system) {start bytes : Nat} (hstart : start < system.nodes.length)
    (hroom : system.HasRoom start bytes) :
    Sound ((system.after start (State.reserve bytes)).give
      { state := some start, maxAllocatedBytes := bytes, code := .ok }) := by
  refine @Sound.exchange system h start (State.reserve bytes) (fun _ => rfl)
    (system.reservations ++ [{ state := some start, maxAllocatedBytes := bytes, code := .ok }])
    (fun _ => 0)
    ({ state := some start, maxAllocatedBytes := bytes, code := .ok } : Reservation).charge
    (live_append h.live ?_) ?_ ?_
  · rintro node ⟨⟩
    exact ⟨hstart, rfl⟩
  · intro node hnode state hnodeGet
    have hhas := hroom node hnode state hnodeGet
    have hbounded := h.bounded node state hnodeGet
    rw [State.HasRoom] at hhas
    constructor
    · intro measure
      cases measure with
      | physical => rfl
      | allocated => rfl
      | reserved => rfl
      | used =>
          simp only [State.now, State.reserve, Reservation.charge, Bool.false_eq_true, if_false]
          omega
    · constructor
      · show state.allocatedBytes + (state.reservedBytes + bytes) ≤ state.capacityBytes
        omega
      · exact hbounded.capacity
      · exact hbounded.physical
  · intro measure node
    rw [sum_map_append, share_some rfl, ite_self]
    rfl

theorem Sound.committed (h : Sound system) {index start : Nat} {reservation : Reservation}
    (hget : system.reservations[index]? = some reservation)
    (hstate : reservation.state = some start) (huncommitted : reservation.committed = false)
    {usage : Usage} (hallocated : usage.allocatedBytes ≤ reservation.maxAllocatedBytes)
    (hwords : ∀ node ∈ line system.parents start, ∀ state, system.nodes[node]? = some state →
      state.physicalBytes + usage.physicalBytes < 2 ^ 64) :
    Sound ((system.after start (State.commit reservation.maxAllocatedBytes usage)).put index
      { reservation with usage, committed := true }) := by
  refine @Sound.exchange system h start (State.commit reservation.maxAllocatedBytes usage)
    (fun _ => rfl) (system.reservations.set index { reservation with usage, committed := true })
    reservation.charge ({ reservation with usage, committed := true } : Reservation).charge
    (h.live_set (h.live reservation (List.mem_of_getElem? hget))) ?_ ?_
  · intro node hnode state hnodeGet
    have hreserved := h.charge_le hget hstate hnode hnodeGet .reserved
    have hbounded := h.bounded node state hnodeGet
    have hroom := hbounded.room
    simp only [Reservation.charge, huncommitted, Bool.false_eq_true, if_false, State.now]
      at hreserved
    constructor
    · intro measure
      simp only [Reservation.charge, huncommitted, Bool.false_eq_true, if_false, if_true]
      cases measure with
      | physical => rfl
      | allocated => rfl
      | reserved => exact Nat.sub_add_cancel hreserved
      | used =>
          simp only [State.now, State.commit]
          omega
    · constructor
      · show state.allocatedBytes + usage.allocatedBytes +
          (state.reservedBytes - reservation.maxAllocatedBytes) ≤ state.capacityBytes
        omega
      · exact hbounded.capacity
      · exact hwords node hnode state hnodeGet
  · intro measure node
    have hsum := sum_map_set (Reservation.share system.parents measure node) hget
      { reservation with usage, committed := true }
    rw [share_some hstate, share_some (show ({ reservation with usage, committed := true } :
      Reservation).state = some start from hstate)] at hsum
    exact hsum

theorem Sound.partitioned (h : Sound system) {index start bytes : Nat} {reservation : Reservation}
    (hget : system.reservations[index]? = some reservation)
    (hstate : reservation.state = some start) (huncommitted : reservation.committed = false)
    (hbytes : bytes ≤ reservation.maxAllocatedBytes) :
    Sound ((system.put index
      { reservation with maxAllocatedBytes := reservation.maxAllocatedBytes - bytes }).give
      { state := some start, maxAllocatedBytes := bytes, code := .ok }) := by
  have hlive := h.live reservation (List.mem_of_getElem? hget)
  refine h.relist (live_append (h.live_set hlive) ?_) ?_
  · rintro node ⟨⟩
    exact ⟨(hlive start hstate).1, rfl⟩
  · intro measure node
    have hsum := sum_map_set (Reservation.share system.parents measure node) hget
      { reservation with maxAllocatedBytes := reservation.maxAllocatedBytes - bytes }
    rw [show ((system.put index { reservation with
        maxAllocatedBytes := reservation.maxAllocatedBytes - bytes }).reservations) =
      system.reservations.set index { reservation with
        maxAllocatedBytes := reservation.maxAllocatedBytes - bytes } from rfl, sum_map_append,
      share_some (show ({ state := some start, maxAllocatedBytes := bytes, code := .ok } :
        Reservation).state = some start from rfl)]
    rw [share_some hstate, share_some (show ({ reservation with
      maxAllocatedBytes := reservation.maxAllocatedBytes - bytes } : Reservation).state =
        some start from hstate)] at hsum
    rw [System.held]
    split_ifs at hsum ⊢ with hmem
    · have hcharge : ({ reservation with
          maxAllocatedBytes := reservation.maxAllocatedBytes - bytes } : Reservation).charge
            measure +
          ({ state := some start, maxAllocatedBytes := bytes, code := .ok } : Reservation).charge
            measure = reservation.charge measure := by
        simp only [Reservation.charge, huncommitted, Bool.false_eq_true, if_false]
        cases measure with
        | physical => rfl
        | allocated => rfl
        | reserved => exact Nat.sub_add_cancel hbytes
        | used => exact Nat.sub_add_cancel hbytes
      omega
    · omega

theorem Sound.moved (h : Sound system) {index : Nat} {reservation : Reservation}
    (hget : system.reservations[index]? = some reservation) :
    Sound (system.move index reservation) := by
  have hlive := h.live reservation (List.mem_of_getElem? hget)
  refine h.relist (live_append (h.live_set nofun) hlive) ?_
  intro measure node
  have hsum := sum_map_set (Reservation.share system.parents measure node) hget .spent
  rw [share_none (show Reservation.spent.state = none from rfl)] at hsum
  rw [show (system.put index .spent).reservations = system.reservations.set index .spent from rfl,
    sum_map_append]
  exact hsum

/-- A charge handed over to a reservation that has none. -/
theorem Sound.assigned (h : Sound system) {target source : Nat} {old reservation : Reservation}
    (hne : target ≠ source) (hold : system.reservations[target]? = some old)
    (hnone : old.state = none) (hget : system.reservations[source]? = some reservation) :
    Sound ((system.put target reservation).put source .spent) := by
  have hlive := h.live reservation (List.mem_of_getElem? hget)
  have hfirst : ∀ other ∈ system.reservations.set target reservation, ∀ node,
      other.state = some node → node < system.nodes.length ∧ other.code = .ok := h.live_set hlive
  have hsecond : ∀ other ∈ (system.reservations.set target reservation).set source .spent,
      ∀ node, other.state = some node → node < system.nodes.length ∧ other.code = .ok := by
    intro other hother
    rcases List.mem_or_eq_of_mem_set hother with hmem | rfl
    · exact hfirst other hmem
    · exact nofun
  refine h.relist hsecond ?_
  intro measure node
  have hset := sum_map_set (Reservation.share system.parents measure node) hold reservation
  have hget' : (system.reservations.set target reservation)[source]? = some reservation := by
    rw [List.getElem?_set_ne hne]
    exact hget
  have hspent := sum_map_set (Reservation.share system.parents measure node) hget' .spent
  rw [share_none hnone] at hset
  rw [share_none (show Reservation.spent.state = none from rfl)] at hspent
  show (((system.reservations.set target reservation).set source .spent).map _).sum = _
  rw [System.held]
  omega

theorem Sound.replaced (h : Sound system) {target source start : Nat} {old reservation : Reservation}
    (hne : target ≠ source) (hold : system.reservations[target]? = some old)
    (hstate : old.state = some start) (hget : system.reservations[source]? = some reservation) :
    Sound ((((system.after start (State.refund old)).put target .spent).put target
      reservation).put source .spent) := by
  have hlt : target < system.reservations.length := by
    by_contra hge
    rw [List.getElem?_eq_none (Nat.le_of_not_lt hge)] at hold
    cases hold
  have hspent : (system.reservations.set target .spent)[target]? = some .spent :=
    List.getElem?_set_self hlt
  refine (h.released hold hstate).assigned hne hspent rfl ?_
  show (system.reservations.set target .spent)[source]? = _
  rw [List.getElem?_set_ne hne]
  exact hget

theorem Sound.refused (h : Sound system) {nodes : List State} {given : List Reservation}
    (hnodes : nodes = system.nodes ∨ ∃ start < system.nodes.length,
      nodes = changed (line system.parents start) rejectNode system.nodes)
    (hgiven : ∀ reservation ∈ given, reservation.state = none) :
    Sound { system with nodes, reservations := system.reservations ++ given } := by
  have hlive : ∀ other ∈ system.reservations ++ given, ∀ node, other.state = some node →
      node < system.nodes.length ∧ other.code = .ok := by
    intro other hother node hnode
    rcases List.mem_append.mp hother with hmem | hmem
    · exact h.live other hmem node hnode
    · rw [hgiven other hmem] at hnode
      cases hnode
  have hsum : ∀ measure node,
      ((system.reservations ++ given).map (Reservation.share system.parents measure node)).sum =
        system.held measure node := by
    intro measure node
    rw [List.map_append, List.sum_append, System.held, Nat.add_eq_left]
    exact sum_map_zero fun reservation hmem => share_none (hgiven reservation hmem) _ _ _
  rcases hnodes with rfl | ⟨start, -, rfl⟩
  · exact h.relist hlive hsum
  · refine @Sound.exchange system h start rejectNode (fun _ => rfl) _ (fun _ => 0) (fun _ => 0)
      hlive ?_ ?_
    · intro node _ state hnodeGet
      have hbounded := h.bounded node state hnodeGet
      refine ⟨fun measure => ?_, hbounded.room, hbounded.capacity, hbounded.physical⟩
      cases measure with
      | physical => rfl
      | allocated => rfl
      | reserved => rfl
      | used => rfl
    · intro measure node
      rw [hsum]

/-! ### New nodes -/

theorem parents_push (state : State) (node : Nat) (hnode : node ≠ system.nodes.length) :
    links State.parent (system.nodes ++ [state]) node = system.parents node := by
  rw [System.parents, links, links]
  by_cases hlt : node < system.nodes.length
  · rw [List.getElem?_append_left hlt]
  · rw [List.getElem?_eq_none (by rw [List.length_append, List.length_singleton]; omega),
      List.getElem?_eq_none (by omega)]

theorem Sound.forest_push (h : Sound system) {state : State}
    (hparent : ∀ node, state.parent = some node → node < system.nodes.length) :
    Descends (links State.parent (system.nodes ++ [state])) := by
  intro node parent hlink
  by_cases hnode : node = system.nodes.length
  · rw [hnode, links, List.getElem?_concat_length, Option.bind_some] at hlink
    rw [hnode]
    exact hparent parent hlink
  · rw [parents_push state node hnode] at hlink
    exact h.forest node parent hlink

/-- The lineages of the nodes that were there are not changed by a new one. -/
theorem Sound.line_push (h : Sound system) {state : State}
    (hparent : ∀ node, state.parent = some node → node < system.nodes.length) {start : Nat}
    (hstart : start < system.nodes.length) :
    line (links State.parent (system.nodes ++ [state])) start = line system.parents start :=
  (h.forest_push hparent).line_congr h.forest fun node hnode =>
    parents_push state node (by omega)

/-- A node as it is created. -/
structure State.Fresh (state : State) : Prop where
  now : ∀ measure, state.now measure = 0
  peak : ∀ measure, state.peak measure = 0
  refundCount : state.refundCount = 0

theorem fresh_node (parent : Option Nat) (capacityBytes : Nat) :
    ({ parent, capacityBytes } : State).Fresh := by
  constructor
  · intro measure
    cases measure with
    | physical => rfl
    | allocated => rfl
    | reserved => rfl
    | used => rfl
  · intro measure
    cases measure with
    | physical => rfl
    | allocated => rfl
    | reserved => rfl
    | used => rfl
  · rfl

theorem Sound.held_push (h : Sound system) {state : State}
    (hparent : ∀ node, state.parent = some node → node < system.nodes.length) (measure : Measure)
    (node : Nat) :
    (system.reservations.map (Reservation.share
      (links State.parent (system.nodes ++ [state])) measure node)).sum =
        system.held measure node := by
  rw [System.held]
  congr 1
  refine List.map_congr_left fun reservation hmem => ?_
  rcases hstate : reservation.state with - | start
  · rw [share_none hstate, share_none hstate]
  · rw [share_some hstate, share_some hstate,
      h.line_push hparent (h.live reservation hmem start hstate).1]

/-- Nothing is charged to a node that is not there yet. -/
theorem Sound.held_beyond (h : Sound system) (measure : Measure) {node : Nat}
    (hnode : system.nodes.length ≤ node) : system.held measure node = 0 := by
  rw [System.held]
  apply sum_map_zero
  intro reservation hmem
  rcases hstart : reservation.state with - | start
  · exact share_none hstart _ _ _
  · rw [share_some hstart]
    refine if_neg fun hline => ?_
    have hle := h.forest.le_of_mem_line hline
    have := (h.live reservation hmem start hstart).1
    omega

/-- A node of a list with one more is an old one or the new one. -/
theorem getElem?_push {nodes : List State} {fresh state : State} {node : Nat}
    (hget : (nodes ++ [fresh])[node]? = some state) :
    nodes[node]? = some state ∨ node = nodes.length ∧ state = fresh := by
  by_cases hlt : node < nodes.length
  · rw [List.getElem?_append_left hlt] at hget
    exact Or.inl hget
  · rw [List.getElem?_append_right (by omega), List.getElem?_singleton] at hget
    split_ifs at hget with hzero
    injection hget with hget
    exact Or.inr ⟨by omega, hget.symm⟩

theorem Sound.newNode (h : Sound system) {state : State} (hfresh : state.Fresh)
    (hparent : ∀ node, state.parent = some node → node < system.nodes.length)
    (hcapacity : state.capacityBytes < 2 ^ 64) {budget : Budget}
    (hbudget : budget.state = some system.nodes.length) :
    Sound { system with
      nodes := system.nodes ++ [state]
      budgets := system.budgets ++ [budget] } := by
  have hlength : (system.nodes ++ [state]).length = system.nodes.length + 1 := List.length_append
  constructor
  · exact h.forest_push hparent
  · intro other hother node hnode
    show node < (system.nodes ++ [state]).length
    rw [hlength]
    rcases List.mem_append.mp hother with hmem | hmem
    · exact Nat.lt_succ_of_lt (h.budgets other hmem node hnode)
    · rw [List.mem_singleton] at hmem
      rw [hmem, hbudget] at hnode
      injection hnode with hnode
      omega
  · intro reservation hmem node hnode
    show node < (system.nodes ++ [state]).length ∧ _
    rw [hlength]
    have hold := h.live reservation hmem node hnode
    exact ⟨Nat.lt_succ_of_lt hold.1, hold.2⟩
  · intro node other hget measure
    refine Eq.trans ?_ (h.held_push hparent measure node).symm
    rcases getElem?_push hget with hold | ⟨rfl, rfl⟩
    · exact h.books node other hold measure
    · rw [h.held_beyond measure (Nat.le_refl _)]
      exact hfresh.now measure
  · intro node other hget
    rcases getElem?_push hget with hold | ⟨-, rfl⟩
    · exact h.bounded node other hold
    · have hallocated : other.allocatedBytes = 0 := hfresh.now .allocated
      have hreserved : other.reservedBytes = 0 := hfresh.now .reserved
      have hphysical : other.physicalBytes = 0 := hfresh.now .physical
      exact ⟨by omega, hcapacity, by omega⟩

/-- **Every call keeps a system sound.** -/
theorem Sound.effect (h : Sound system) {op : Op} {code : ReasonCode} {next : System}
    (heffect : Effect system op code next) : Sound next := by
  cases heffect with
  | noNode budget hop hnone =>
      refine ⟨h.forest, ?_, h.live, h.books, h.bounded⟩
      intro other hother node hnode
      rcases List.mem_append.mp hother with hmem | hmem
      · exact h.budgets other hmem node hnode
      · rw [List.mem_singleton] at hmem
        rw [hmem, hnone] at hnode
        cases hnode
  | newNode parent capacityBytes hop hparent hcapacity =>
      exact h.newNode (fresh_node parent capacityBytes) hparent hcapacity rfl
  | reserved budget start hbudget hstate hok hstart hroom => exact h.reserved hstart hroom
  | refused hop hcode nodes given hnodes hgiven =>
      apply h.refused hnodes
      rcases hgiven with ⟨rfl, -⟩ | ⟨⟨reservation, rfl, hnone⟩, -⟩
      · exact nofun
      · intro other hother
        rw [List.mem_singleton] at hother
        rw [hother]
        exact hnone
  | partitioned reservation start hget hstate huncommitted hbytes =>
      exact h.partitioned hget hstate huncommitted hbytes
  | committed reservation start hget hstate huncommitted hallocated hadmits =>
      exact h.committed hget hstate huncommitted hallocated hadmits
  | idle hop => exact h
  | released hop reservation start hget hstate => exact h.released hget hstate
  | moved reservation hget => exact h.moved hget
  | assigned old reservation hne hold hnone hget => exact h.assigned hne hold hnone hget
  | replaced old reservation start hne hold hstate hget => exact h.replaced hne hold hstate hget

/-! ### High-water marks -/

/-- The current values are not above their marks. -/
def State.Topped (state : State) : Prop := ∀ measure, state.now measure ≤ state.peak measure

/-- What a call may do to a node: raise its marks to the new values. -/
def State.Rises (state next : State) : Prop :=
  ∀ measure, next.peak measure = max (next.now measure) (state.peak measure)

theorem State.Topped.rises_self {state : State} (h : state.Topped) : state.Rises state :=
  fun measure => (Nat.max_eq_right (h measure)).symm

theorem State.Topped.reserve {state : State} (h : state.Topped) (bytes : Nat) :
    state.Rises (state.reserve bytes) := by
  intro measure
  have hle := h measure
  cases measure with
  | physical => exact (Nat.max_eq_right hle).symm
  | allocated => exact (Nat.max_eq_right hle).symm
  | reserved => exact Nat.max_comm _ _
  | used => exact Nat.max_comm _ _

theorem State.Topped.commit {state : State} (h : state.Topped) (reserved : Nat) (usage : Usage) :
    state.Rises (state.commit reserved usage) := by
  intro measure
  cases measure with
  | physical => exact Nat.max_comm _ _
  | allocated => exact Nat.max_comm _ _
  | reserved => exact (Nat.max_eq_right (Nat.le_trans (Nat.sub_le _ _) (h .reserved))).symm
  | used => exact Nat.max_comm _ _

theorem State.Topped.refund {state : State} (h : state.Topped) (reservation : Reservation) :
    state.Rises (state.refund reservation) := by
  intro measure
  cases measure with
  | physical => exact (Nat.max_eq_right (Nat.le_trans (Nat.sub_le _ _) (h .physical))).symm
  | allocated => exact (Nat.max_eq_right (Nat.le_trans (Nat.sub_le _ _) (h .allocated))).symm
  | reserved => exact (Nat.max_eq_right (Nat.le_trans (Nat.sub_le _ _) (h .reserved))).symm
  | used =>
      refine (Nat.max_eq_right (Nat.le_trans ?_ (h .used))).symm
      exact Nat.add_le_add (Nat.sub_le _ _) (Nat.sub_le _ _)

theorem State.Topped.rejectNode {state : State} (h : state.Topped) :
    state.Rises (rejectNode state) := by
  intro measure
  have hle := h measure
  cases measure with
  | physical => exact (Nat.max_eq_right hle).symm
  | allocated => exact (Nat.max_eq_right hle).symm
  | reserved => exact (Nat.max_eq_right hle).symm
  | used => exact (Nat.max_eq_right hle).symm

/-- The nodes of a later system: the old ones with their marks raised, and fresh ones. -/
structure Evolves (nodes next : List State) : Prop where
  grows : nodes.length ≤ next.length
  keeps : ∀ (node : Nat) (state : State), nodes[node]? = some state → ∃ later : State, next[node]? = some later ∧
    (state.Topped → state.Rises later)
  fresh : ∀ (node : Nat) (later : State), nodes[node]? = none → next[node]? = some later → later.Fresh

theorem Evolves.same (nodes : List State) : Evolves nodes nodes where
  grows := Nat.le_refl _
  keeps _ state hget := ⟨state, hget, fun h => h.rises_self⟩
  fresh node later hnone hget := by
    rw [hnone] at hget
    cases hget

theorem Evolves.after {nodes : List State} {along : List Nat} {change : State → State}
    (h : ∀ state : State, state.Topped → state.Rises (change state)) :
    Evolves nodes (changed along change nodes) where
  grows := Nat.le_of_eq (length_changed along).symm
  keeps node state hget := by
    refine ⟨if node ∈ along then change state else state, ?_, ?_⟩
    · rw [getElem?_changed, hget]
      rfl
    · intro htopped
      split_ifs
      · exact h state htopped
      · exact htopped.rises_self
  fresh node later hnone hget := by
    rw [getElem?_changed, hnone] at hget
    cases hget

theorem Evolves.push {nodes : List State} {state : State} (h : state.Fresh) :
    Evolves nodes (nodes ++ [state]) where
  grows := by
    rw [List.length_append]
    exact Nat.le_add_right _ _
  keeps node old hget := by
    have hlt : node < nodes.length := by
      by_contra hge
      rw [List.getElem?_eq_none (Nat.le_of_not_lt hge)] at hget
      cases hget
    refine ⟨old, ?_, fun htopped => htopped.rises_self⟩
    rw [List.getElem?_append_left hlt]
    exact hget
  fresh node later hnone hget := by
    rcases getElem?_push hget with hold | ⟨-, rfl⟩
    · rw [hnone] at hold
      cases hold
    · exact h

theorem Effect.evolves {op : Op} {code : ReasonCode} {next : System}
    (h : Effect system op code next) : Evolves system.nodes next.nodes := by
  cases h with
  | noNode => exact Evolves.same _
  | newNode parent capacityBytes => exact Evolves.push (fresh_node parent capacityBytes)
  | reserved => exact Evolves.after fun state htopped => htopped.reserve _
  | refused hop hcode nodes given hnodes =>
      rcases hnodes with rfl | ⟨start, -, rfl⟩
      · exact Evolves.same _
      · exact Evolves.after fun state htopped => htopped.rejectNode
  | partitioned => exact Evolves.same _
  | committed => exact Evolves.after fun state htopped => htopped.commit _ _
  | idle => exact Evolves.same _
  | released => exact Evolves.after fun state htopped => htopped.refund _
  | moved => exact Evolves.same _
  | assigned => exact Evolves.same _
  | replaced => exact Evolves.after fun state htopped => htopped.refund _

end Keeps

end RunD.Storage
