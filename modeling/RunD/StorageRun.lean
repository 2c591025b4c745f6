/-
Conservation in a hierarchy of storage budgets, over every run.

A run is a list of systems, the latest first.  Beside it goes a ledger, which
numbers the charges that are issued and notes which reservation owns each and
which are released.  In every run the books hold, no node is used beyond its
capacity, every charge is owned or released exactly once, and the high-water
marks are the maxima over the systems of the run (`storage_conservation`).
-/
import RunD.StorageConservation

namespace RunD.Storage

open Lineage

/-! ### Ledgers -/

/-- Which reservation owns each charge, and which charges are released, with their nodes.  Charges
are numbered in the order in which they are issued. -/
structure Ledger where
  owners : List (Option Nat) := []
  released : List (Nat × Nat) := []
  next : Nat := 0
  deriving DecidableEq, Repr

namespace Ledger

/-- The charge of a reservation. -/
def owner (ledger : Ledger) (index : Nat) : Option Nat := ledger.owners[index]?.join

/-- A charge issued to a new reservation. -/
def issue (ledger : Ledger) : Ledger :=
  { ledger with owners := ledger.owners ++ [some ledger.next], next := ledger.next + 1 }

/-- The charge of a reservation released. -/
def release (ledger : Ledger) (system : System) (index : Nat) : Ledger :=
  match ledger.owner index, system.reservations[index]?.bind Reservation.state with
  | some charge, some node =>
      { ledger with
        owners := ledger.owners.set index none
        released := ledger.released ++ [(charge, node)] }
  | _, _ => ledger

/-- What a call of a system, with the code it returns, is in the ledger. -/
def step (ledger : Ledger) (system : System) (code : ReasonCode) : Op → Ledger
  | .create _ _ | .child _ _ _ | .commit _ _ _ => ledger
  | .reserve _ _ | .partition _ _ =>
      if code = .ok then ledger.issue else { ledger with owners := ledger.owners ++ [none] }
  | .refund index | .destroy index => ledger.release system index
  | .move index =>
      { ledger with owners := ledger.owners.set index none ++ [ledger.owner index] }
  | .moveAssign target source =>
      if target = source then ledger
      else
        let released := ledger.release system target
        { released with
          owners := (released.owners.set target (ledger.owner source)).set source none }

/-- How many reservations own a charge. -/
def ownedTimes (ledger : Ledger) (charge : Nat) : Nat := (ledger.owners.filterMap id).count charge

/-- How many times a charge was released. -/
def releasedTimes (ledger : Ledger) (charge : Nat) : Nat :=
  (ledger.released.map Prod.fst).count charge

/-- How many releases there were at a node or below. -/
def releasesBelow (ledger : Ledger) (parents : Nat → Option Nat) (node : Nat) : Nat :=
  ledger.released.countP fun entry => node ∈ line parents entry.2

end Ledger

/-- The reservations that are alive own the charges that are not released, one each. -/
structure Ledger.Owns (ledger : Ledger) (reservations : List Reservation) : Prop where
  owners : ledger.owners.map Option.isSome =
    reservations.map fun reservation => reservation.state.isSome
  once : ∀ charge, ledger.ownedTimes charge + ledger.releasedTimes charge =
    if charge < ledger.next then 1 else 0

/-- The nodes count the releases at them and below. -/
structure Ledger.Counts (ledger : Ledger) (nodes : List State) : Prop where
  below : ∀ entry ∈ ledger.released, entry.2 < nodes.length
  counts : ∀ (node : Nat) (state : State), nodes[node]? = some state →
    state.refundCount = min wordMax (ledger.releasesBelow (links State.parent nodes) node)

theorem count_filterMap_append (owners : List (Option Nat)) (owner : Option Nat) (charge : Nat) :
    ((owners ++ [owner]).filterMap id).count charge =
      (owners.filterMap id).count charge + owner.toList.count charge := by
  rw [List.filterMap_append, List.count_append]
  congr 1

theorem count_filterMap_set {owners : List (Option Nat)} {index : Nat} {old : Option Nat}
    (hget : owners[index]? = some old) (new : Option Nat) (charge : Nat) :
    ((owners.set index new).filterMap id).count charge + old.toList.count charge =
      (owners.filterMap id).count charge + new.toList.count charge := by
  have hcons : ∀ (owner : Option Nat) (rest : List (Option Nat)),
      ((owner :: rest).filterMap id).count charge =
        owner.toList.count charge + (rest.filterMap id).count charge := by
    intro owner rest
    cases owner with
    | none => simp
    | some owner => simp [List.count_cons, Nat.add_comm]
  induction owners generalizing index with
  | nil => cases hget
  | cons owner rest ih =>
      cases index with
      | zero =>
          injection hget with hget
          rw [List.set_cons_zero, hcons, hcons, hget]
          omega
      | succ index =>
          have hrest := @ih index hget
          rw [List.set_cons_succ, hcons, hcons]
          omega

namespace Ledger.Owns

variable {ledger : Ledger} {reservations : List Reservation}

/-- A reservation that is alive owns a charge, and no other does. -/
theorem owner_eq (h : ledger.Owns reservations) {index : Nat} {reservation : Reservation}
    (hget : reservations[index]? = some reservation) :
    ledger.owners[index]? = some (ledger.owner index) ∧
      (ledger.owner index).isSome = reservation.state.isSome := by
  have hmap : (ledger.owners.map Option.isSome)[index]? = some reservation.state.isSome := by
    rw [h.owners, List.getElem?_map, hget]
    rfl
  rw [List.getElem?_map, Option.map_eq_some_iff] at hmap
  obtain ⟨owner, howner, hsome⟩ := hmap
  have heq : ledger.owner index = owner := by
    rw [Ledger.owner, howner]
    rfl
  rw [heq]
  exact ⟨howner, hsome⟩

theorem give (h : ledger.Owns reservations) {reservation : Reservation}
    (hnone : reservation.state = none) :
    ({ ledger with owners := ledger.owners ++ [none] } : Ledger).Owns
      (reservations ++ [reservation]) where
  owners := by
    rw [List.map_append, List.map_append, h.owners, List.map_singleton, List.map_singleton, hnone]
  once charge := by
    rw [ownedTimes, count_filterMap_append]
    exact h.once charge

theorem issue (h : ledger.Owns reservations) {reservation : Reservation} {start : Nat}
    (hstate : reservation.state = some start) :
    ledger.issue.Owns (reservations ++ [reservation]) where
  owners := by
    rw [Ledger.issue, List.map_append, List.map_append, h.owners, List.map_singleton,
      List.map_singleton, hstate]
    rfl
  once charge := by
    have honce := h.once charge
    rw [ownedTimes] at honce
    rw [ownedTimes, Ledger.issue, count_filterMap_append, Option.toList_some, List.count_singleton]
    show _ + _ + ledger.releasedTimes charge = if charge < ledger.next + 1 then 1 else 0
    by_cases hnext : ledger.next = charge
    · rw [if_pos (beq_iff_eq.mpr hnext), if_pos (by omega)]
      rw [if_neg (by omega)] at honce
      omega
    · rw [if_neg fun heq => hnext (beq_iff_eq.mp heq), Nat.add_zero, honce]
      split_ifs <;> omega

/-- A change that leaves a reservation alive or dead as it was. -/
theorem put (h : ledger.Owns reservations) {index : Nat} {old new : Reservation}
    (hget : reservations[index]? = some old) (hsame : new.state.isSome = old.state.isSome) :
    ledger.Owns (reservations.set index new) where
  owners := by
    rw [h.owners]
    apply List.ext_getElem?
    intro place
    rw [List.getElem?_map, List.getElem?_map]
    by_cases hplace : index = place
    · rw [← hplace, List.getElem?_set_self (List.getElem?_eq_some_iff.mp hget).1, hget,
        Option.map_some, Option.map_some, hsame]
    · rw [List.getElem?_set_ne hplace]
  once := h.once

/-- Owners and reservations set at one place. -/
theorem map_set (h : ledger.Owns reservations) (index : Nat) {owner : Option Nat}
    {reservation : Reservation} (hsame : owner.isSome = reservation.state.isSome) :
    (ledger.owners.set index owner).map Option.isSome =
      (reservations.set index reservation).map fun reservation => reservation.state.isSome := by
  rw [List.map_set, List.map_set, h.owners, hsame]

theorem release (h : ledger.Owns reservations) {system : System}
    (hreservations : system.reservations = reservations) {index start : Nat}
    {reservation : Reservation} (hget : reservations[index]? = some reservation)
    (hstate : reservation.state = some start) :
    ∃ charge, ledger.release system index =
        { ledger with
          owners := ledger.owners.set index none
          released := ledger.released ++ [(charge, start)] } ∧
      (ledger.release system index).Owns (reservations.set index .spent) := by
  obtain ⟨howner, hsome⟩ := h.owner_eq hget
  rw [hstate, Option.isSome_some, Option.isSome_iff_exists] at hsome
  obtain ⟨charge, hcharge⟩ := hsome
  have heq : ledger.release system index =
      { ledger with
        owners := ledger.owners.set index none
        released := ledger.released ++ [(charge, start)] } := by
    rw [Ledger.release, hcharge, hreservations, hget, Option.bind_some, hstate]
  refine ⟨charge, heq, ?_⟩
  rw [heq]
  constructor
  · exact h.map_set index rfl
  · intro other
    have honce := h.once other
    have hcount := count_filterMap_set howner none other
    rw [hcharge, Option.toList_some, Option.toList_none, List.count_nil] at hcount
    rw [ownedTimes, releasedTimes] at honce
    show ((ledger.owners.set index none).filterMap id).count other +
      ((ledger.released ++ [(charge, start)]).map Prod.fst).count other =
        if other < ledger.next then 1 else 0
    rw [List.map_append, List.map_singleton, List.count_append, show (charge, start).1 = charge
      from rfl]
    omega

theorem move (h : ledger.Owns reservations) {index : Nat} {reservation : Reservation}
    (hget : reservations[index]? = some reservation) :
    ({ ledger with owners := ledger.owners.set index none ++ [ledger.owner index] } : Ledger).Owns
      (reservations.set index .spent ++ [reservation]) := by
  obtain ⟨howner, hsome⟩ := h.owner_eq hget
  constructor
  · rw [List.map_append, List.map_append, h.map_set index (show none.isSome =
      Reservation.spent.state.isSome from rfl), List.map_singleton, List.map_singleton, hsome]
  · intro charge
    have honce := h.once charge
    have hcount := count_filterMap_set howner none charge
    rw [Option.toList_none, List.count_nil] at hcount
    rw [ownedTimes] at honce ⊢
    rw [count_filterMap_append]
    show _ + ledger.releasedTimes charge = if charge < ledger.next then 1 else 0
    omega

/-- A charge handed over to a reservation that has none. -/
theorem assign (h : ledger.Owns reservations) {target source : Nat} {old reservation : Reservation}
    (hne : target ≠ source) (hold : reservations[target]? = some old) (hnone : old.state = none)
    (hget : reservations[source]? = some reservation) :
    ({ ledger with
        owners := (ledger.owners.set target (ledger.owner source)).set source none } : Ledger).Owns
      ((reservations.set target reservation).set source .spent) := by
  obtain ⟨hsource, hsome⟩ := h.owner_eq hget
  obtain ⟨htarget, hdead⟩ := h.owner_eq hold
  rw [hnone, Option.isSome_none, Option.isSome_eq_false_iff, Option.isNone_iff_eq_none] at hdead
  constructor
  · show ((ledger.owners.set target (ledger.owner source)).set source none).map Option.isSome = _
    rw [List.map_set, h.map_set target hsome]
    conv_rhs => rw [List.map_set]
    rfl
  · intro charge
    have honce := h.once charge
    have hset := count_filterMap_set htarget (ledger.owner source) charge
    have hsource' : (ledger.owners.set target (ledger.owner source))[source]? =
        some (ledger.owner source) := by
      rw [List.getElem?_set_ne hne]
      exact hsource
    have hclear := count_filterMap_set hsource' none charge
    rw [hdead, Option.toList_none, List.count_nil] at hset
    rw [Option.toList_none, List.count_nil] at hclear
    rw [ownedTimes] at honce
    show (((ledger.owners.set target (ledger.owner source)).set source none).filterMap id).count
      charge + ledger.releasedTimes charge = if charge < ledger.next then 1 else 0
    omega

end Ledger.Owns

/-! ### Releases counted -/

namespace Ledger.Counts

variable {ledger : Ledger} {nodes : List State}

theorem congr_released (h : ledger.Counts nodes) {other : Ledger}
    (hreleased : other.released = ledger.released) : other.Counts nodes := by
  constructor
  · rw [hreleased]
    exact h.below
  · intro node state hget
    rw [releasesBelow, hreleased]
    exact h.counts node state hget

theorem after (h : ledger.Counts nodes) {along : List Nat} {change : State → State}
    (hlink : ∀ state, (change state).parent = state.parent)
    (hcount : ∀ state, (change state).refundCount = state.refundCount) :
    ledger.Counts (changed along change nodes) := by
  constructor
  · rw [length_changed]
    exact h.below
  · intro node state hget
    rw [getElem?_changed, Option.map_eq_some_iff] at hget
    obtain ⟨old, hold, rfl⟩ := hget
    rw [links_changed hlink, ← h.counts node old hold]
    split_ifs
    · exact hcount old
    · rfl

theorem increment_min (count : Nat) : increment (min wordMax count) = min wordMax (count + 1) := by
  rw [increment]
  split_ifs with hmax
  · omega
  · omega

theorem release (h : ledger.Counts nodes) {start charge : Nat} {reservation : Reservation}
    (hstart : start < nodes.length) {other : Ledger}
    (hreleased : other.released = ledger.released ++ [(charge, start)]) :
    other.Counts (changed (line (links State.parent nodes) start) (State.refund reservation) nodes) := by
  constructor
  · intro entry hentry
    rw [length_changed]
    rw [hreleased] at hentry
    rcases List.mem_append.mp hentry with hmem | hmem
    · exact h.below entry hmem
    · rw [List.mem_singleton] at hmem
      rw [hmem]
      exact hstart
  · intro node state hget
    rw [getElem?_changed, Option.map_eq_some_iff] at hget
    obtain ⟨old, hold, rfl⟩ := hget
    have hcount := h.counts node old hold
    rw [links_changed (show ∀ state, (State.refund reservation state).parent = state.parent from
      fun _ => rfl), releasesBelow, hreleased, List.countP_append,
      List.countP_singleton]
    by_cases hnode : node ∈ line (links State.parent nodes) start
    · rw [if_pos hnode, if_pos (decide_eq_true hnode), ← increment_min]
      exact congrArg increment hcount
    · rw [if_neg hnode, if_neg fun htrue => hnode (of_decide_eq_true htrue)]
      exact hcount

theorem push {system : System} (h : ledger.Counts system.nodes) (hsound : Sound system)
    {state : State} (hfresh : state.Fresh)
    (hparent : ∀ node, state.parent = some node → node < system.nodes.length) :
    ledger.Counts (system.nodes ++ [state]) := by
  constructor
  · intro entry hentry
    rw [List.length_append]
    exact Nat.lt_add_right _ (h.below entry hentry)
  · intro node other hget
    have hsame : ledger.releasesBelow (links State.parent (system.nodes ++ [state])) node =
        ledger.releasesBelow system.parents node := by
      apply List.countP_congr
      intro entry hentry
      rw [hsound.line_push hparent (h.below entry hentry)]
    rw [hsame]
    rcases getElem?_push hget with hold | ⟨rfl, rfl⟩
    · exact h.counts node other hold
    · have hnone : ledger.releasesBelow system.parents system.nodes.length = 0 := by
        apply List.countP_eq_zero.mpr
        intro entry hentry hmem
        have hle := hsound.forest.le_of_mem_line (of_decide_eq_true hmem)
        have := h.below entry hentry
        omega
      rw [hnone, hfresh.refundCount]
      rfl

end Ledger.Counts

/-! ### Calls and ledgers -/

/-- A ledger that keeps up with a system. -/
structure Ledger.Keeps (ledger : Ledger) (system : System) : Prop where
  owns : ledger.Owns system.reservations
  counts : ledger.Counts system.nodes

section Calls

variable {system : System} {ledger : Ledger}

theorem lt_of_getElem? {α : Type} {xs : List α} {i : Nat} {x : α} (h : xs[i]? = some x) :
    i < xs.length :=
  (List.getElem?_eq_some_iff.mp h).1

theorem Ledger.release_none {index : Nat} {reservation : Reservation}
    (hget : system.reservations[index]? = some reservation) (hnone : reservation.state = none) :
    ledger.release system index = ledger := by
  rw [Ledger.release, hget, Option.bind_some, hnone]
  cases ledger.owner index with
  | none => rfl
  | some charge => rfl

theorem Ledger.Keeps.step_of_kept {op : Op} {code : ReasonCode}
    (hop : ∀ index, op ≠ .refund index ∧ op ≠ .destroy index ∧ op ≠ .move index)
    (hassign : ∀ target source, op ≠ .moveAssign target source) (hrequest : ¬ op.Request) :
    ledger.step system code op = ledger := by
  cases op with
  | create => rfl
  | child => rfl
  | reserve => exact absurd trivial hrequest
  | partition => exact absurd trivial hrequest
  | commit => exact absurd trivial hrequest
  | refund index => exact absurd rfl (hop index).1
  | move index => exact absurd rfl (hop index).2.2
  | moveAssign target source => exact absurd rfl (hassign target source)
  | destroy index => exact absurd rfl (hop index).2.1

/-- **Every call keeps the ledger up.** -/
theorem Ledger.Keeps.effect (h : ledger.Keeps system) (hsound : Sound system) {op : Op}
    {code : ReasonCode} {next : System} (heffect : Effect system op code next) :
    (ledger.step system code op).Keeps next := by
  cases heffect with
  | noNode budget hop hnone hkeeps hassign =>
      rw [Ledger.Keeps.step_of_kept hkeeps hassign hop]
      exact ⟨h.owns, h.counts⟩
  | newNode parent capacityBytes hop hparent hcapacity hkeeps hassign =>
      rw [Ledger.Keeps.step_of_kept hkeeps hassign hop]
      exact ⟨h.owns, h.counts.push hsound (fresh_node parent capacityBytes) hparent⟩
  | @reserved budgetIndex bytes budget start hbudget hstate hok hstart hroom =>
      have hcounts : ledger.Counts (changed (line system.parents start)
          (State.reserve bytes.toNat) system.nodes) := h.counts.after (fun _ => rfl) fun _ => rfl
      exact ⟨h.owns.issue rfl, hcounts.congr_released rfl⟩
  | refused hop hcode nodes given hnodes hgiven =>
      have hcounts : ledger.Counts nodes := by
        rcases hnodes with rfl | ⟨start, -, rfl⟩
        · exact h.counts
        · exact h.counts.after (fun _ => rfl) fun _ => rfl
      rcases hgiven with ⟨rfl, index, physical, allocated, rfl⟩ | ⟨⟨reservation, rfl, hnone⟩, hne⟩
      · refine ⟨?_, hcounts⟩
        rw [List.append_nil]
        exact h.owns
      · have hstep : ledger.step system code op =
            { ledger with owners := ledger.owners ++ [none] } := by
          cases op with
          | reserve => exact if_neg hcode
          | partition => exact if_neg hcode
          | commit index physical allocated => exact absurd rfl (hne index physical allocated)
          | create => exact absurd hop id
          | child => exact absurd hop id
          | refund => exact absurd hop id
          | move => exact absurd hop id
          | moveAssign => exact absurd hop id
          | destroy => exact absurd hop id
        rw [hstep]
        exact ⟨h.owns.give hnone, hcounts.congr_released rfl⟩
  | @partitioned index bytes reservation start hget hstate huncommitted hbytes =>
      have howns := h.owns.put hget (show ({ reservation with
        maxAllocatedBytes := reservation.maxAllocatedBytes - bytes.toNat } :
          Reservation).state.isSome = reservation.state.isSome from rfl)
      have hissued := howns.issue (show
        ({ state := some start, maxAllocatedBytes := bytes.toNat, code := .ok } :
          Reservation).state = some start from rfl)
      exact ⟨hissued, h.counts.congr_released rfl⟩
  | @committed index physical allocated reservation start hget hstate =>
      have hcounts : ledger.Counts (changed (line system.parents start)
          (State.commit reservation.maxAllocatedBytes
            { physicalBytes := physical.toNat, allocatedBytes := allocated.toNat }) system.nodes) :=
        h.counts.after (fun _ => rfl) fun _ => rfl
      exact ⟨h.owns.put hget rfl, hcounts⟩
  | idle hop =>
      have hstep : ledger.step system code op = ledger := by
        rcases hop with ⟨index, hop, reservation, hget, hnone⟩ | ⟨target, rfl⟩
        · rcases hop with rfl | rfl
          · exact Ledger.release_none hget hnone
          · exact Ledger.release_none hget hnone
        · exact if_pos rfl
      rw [hstep]
      exact h
  | @released op index hop reservation start hget hstate =>
      obtain ⟨charge, heq, howns⟩ := h.owns.release rfl hget hstate
      have hstart := (hsound.live _ (List.mem_of_getElem? hget) start hstate).1
      have hstep : ledger.step system .ok op = ledger.release system index := by
        rcases hop with rfl | rfl
        · rfl
        · rfl
      rw [hstep]
      exact ⟨howns, h.counts.release hstart (by rw [heq])⟩
  | moved reservation hget => exact ⟨h.owns.move hget, h.counts.congr_released rfl⟩
  | @assigned target source old reservation hne hold hnone hget =>
      have hstep : ledger.step system .ok (.moveAssign target source) =
          { ledger with
            owners := (ledger.owners.set target (ledger.owner source)).set source none } := by
        rw [Ledger.step, if_neg hne, Ledger.release_none hold hnone]
      rw [hstep]
      exact ⟨h.owns.assign hne hold hnone hget, h.counts.congr_released rfl⟩
  | @replaced target source old reservation start hne hold hstate hget =>
      obtain ⟨charge, heq, howns⟩ := h.owns.release rfl hold hstate
      have hstart := (hsound.live _ (List.mem_of_getElem? hold) start hstate).1
      have hspent : (system.reservations.set target .spent)[target]? = some .spent :=
        List.getElem?_set_self (lt_of_getElem? hold)
      have hsource : (system.reservations.set target .spent)[source]? = some reservation := by
        rw [List.getElem?_set_ne hne]
        exact hget
      have hkept : (ledger.release system target).owner source = ledger.owner source := by
        rw [heq, Ledger.owner, List.getElem?_set_ne hne]
        rfl
      have hassigned := howns.assign hne hspent rfl hsource
      rw [hkept] at hassigned
      have hstep : ledger.step system .ok (.moveAssign target source) =
          { ledger.release system target with
            owners := ((ledger.release system target).owners.set target
              (ledger.owner source)).set source none } := by
        rw [Ledger.step, if_neg hne]
      rw [hstep]
      have hcounts : (ledger.release system target).Counts
          (changed (line system.parents start) (State.refund old) system.nodes) :=
        h.counts.release hstart (by rw [heq])
      exact ⟨hassigned, hcounts.congr_released rfl⟩

end Calls

/-! ### Runs -/

/-- The runs from an empty system, the latest system first, with their ledgers. -/
inductive Run : List System → Ledger → Prop where
  | start : Run [{}] {}
  | step {system next : System} {past : List System} {ledger : Ledger} {op : Op} {code : ReasonCode}
      (hrun : Run (system :: past) ledger) (hop : op.Names system)
      (hstep : (system.step op : Checked Unit (ReasonCode × System)) = Except.ok (code, next)) :
      Run (next :: system :: past) (ledger.step system code op)

/-- The greatest value that a measure of a node had in some systems. -/
def peakOver (measure : Measure) (node : Nat) (systems : List System) : Nat :=
  (systems.map fun system => (system.nodes[node]?.map fun state => state.now measure).getD 0).foldr
    max 0

/-- The marks of a system are the greatest values of its run. -/
def Marked (system : System) (past : List System) : Prop :=
  (∀ (node : Nat) (state : State), system.nodes[node]? = some state →
    ∀ measure, state.peak measure = peakOver measure node (system :: past)) ∧
  ∀ earlier ∈ past, earlier.nodes.length ≤ system.nodes.length

theorem peakOver_cons {measure : Measure} {node : Nat} {system : System} {state : State}
    (hget : system.nodes[node]? = some state) (past : List System) :
    peakOver measure node (system :: past) =
      max (state.now measure) (peakOver measure node past) := by
  rw [peakOver, List.map_cons, List.foldr_cons, hget]
  rfl

theorem peakOver_zero {measure : Measure} {node : Nat} {systems : List System}
    (h : ∀ system ∈ systems, system.nodes.length ≤ node) : peakOver measure node systems = 0 := by
  induction systems with
  | nil => rfl
  | cons system past ih =>
      have hnone : system.nodes[node]? = none :=
        List.getElem?_eq_none (h system List.mem_cons_self)
      rw [peakOver, List.map_cons, List.foldr_cons, hnone]
      show max 0 (peakOver measure node past) = 0
      rw [ih fun other hother => h other (List.mem_cons_of_mem system hother)]
      rfl

theorem Marked.topped {system : System} {past : List System} (h : Marked system past) {node : Nat}
    {state : State} (hget : system.nodes[node]? = some state) : state.Topped := by
  intro measure
  rw [h.1 node state hget, peakOver_cons hget]
  exact Nat.le_max_left _ _

theorem Marked.evolves {system next : System} {past : List System} (h : Marked system past)
    (hnext : Evolves system.nodes next.nodes) : Marked next (system :: past) := by
  constructor
  · intro node later hget measure
    rw [peakOver_cons hget]
    rcases hold : system.nodes[node]? with - | state
    · have hfresh := hnext.fresh node later hold hget
      have hbeyond : system.nodes.length ≤ node := List.getElem?_eq_none_iff.mp hold
      rw [hfresh.peak, hfresh.now, peakOver_zero]
      · rfl
      · intro earlier hearlier
        rcases List.mem_cons.mp hearlier with rfl | hmem
        · exact hbeyond
        · exact Nat.le_trans (h.2 earlier hmem) hbeyond
    · obtain ⟨other, hother, hrises⟩ := hnext.keeps node state hold
      rw [hget] at hother
      injection hother with hother
      rw [hother, hrises (h.topped hold) measure, h.1 node state hold]
  · intro earlier hearlier
    rcases List.mem_cons.mp hearlier with rfl | hmem
    · exact hnext.grows
    · exact Nat.le_trans (h.2 earlier hmem) hnext.grows

theorem sound_start : Sound {} where
  forest := nofun
  budgets := nofun
  live := nofun
  books := nofun
  bounded := nofun

theorem keeps_start : ({} : Ledger).Keeps {} := by
  refine ⟨⟨rfl, fun charge => ?_⟩, nofun, nofun⟩
  rw [if_neg (Nat.not_lt_zero charge)]
  rfl

/-- What holds in every run. -/
theorem Run.invariant {systems : List System} {ledger : Ledger} (h : Run systems ledger) :
    ∃ system past, systems = system :: past ∧ Sound system ∧ ledger.Keeps system ∧
      Marked system past := by
  induction h with
  | start => exact ⟨{}, [], rfl, sound_start, keeps_start, nofun, nofun⟩
  | @step system next past ledger op code hrun hop hstep ih =>
      obtain ⟨current, earlier, heq, hsound, hkeeps, hmarked⟩ := ih
      injection heq with hcurrent hearlier
      subst hcurrent hearlier
      obtain ⟨code', next', hstep', heffect⟩ := hsound.step_effect (ε := Unit) hop
      rw [hstep] at hstep'
      injection hstep' with hpair
      injection hpair with hcode hnext
      subst hcode hnext
      exact ⟨next, system :: past, rfl, hsound.effect heffect, hkeeps.effect hsound heffect,
        hmarked.evolves heffect.evolves⟩

/-! ### Conservation -/

/-- Two systems that differ in rejection counts at most, and in a reservation that was given out
without a charge. -/
structure OnlyRejections (system next : System) : Prop where
  nodes : next.nodes.map (fun state => { state with rejectionCount := 0 }) =
    system.nodes.map fun state => { state with rejectionCount := 0 }
  budgets : next.budgets = system.budgets
  reservations : next.reservations = system.reservations ∨
    ∃ reservation, reservation.state = none ∧
      next.reservations = system.reservations ++ [reservation]

/-- What is promised of one call. -/
structure Promised (system : System) (op : Op) (code : ReasonCode) (next : System) : Prop where
  /-- A request is admitted exactly when the node and all its ancestors have room. -/
  admission : ∀ index bytes budget start, op = .reserve index bytes →
    system.budgets[index]? = some budget → budget.ok = true → budget.state = some start →
    (code = .ok ↔ system.HasRoom start bytes.toNat)
  /-- A rejected request changes only rejection counts. -/
  rejection : op.Request → code ≠ .ok → OnlyRejections system next

theorem Effect.promised {system next : System} {op : Op} {code : ReasonCode}
    (h : Effect system op code next) : Promised system op code next := by
  constructor
  · intro index bytes budget start hop hbudget hok hstart
    cases h with
    | noNode other hnot => exact absurd (hop ▸ trivial) hnot
    | newNode parent capacityBytes hnot => exact absurd (hop ▸ trivial) hnot
    | reserved other node hother hnode _ _ hroom =>
        injection hop with hindex hbytes
        subst hindex hbytes
        rw [hbudget] at hother
        injection hother with hother
        rw [← hother, hstart] at hnode
        injection hnode with hnode
        rw [hnode]
        exact ⟨fun _ => hroom, fun _ => rfl⟩
    | refused _ hcode nodes given _ _ hreason =>
        exact ⟨fun heq => absurd heq hcode,
          fun hroom => absurd hroom (hreason index bytes budget start hop hbudget hok hstart)⟩
    | partitioned => cases hop
    | committed => cases hop
    | idle hidle =>
        rcases hidle with ⟨other, heq, -⟩ | ⟨other, heq⟩
        · rcases heq with heq | heq
          · rw [heq] at hop
            cases hop
          · rw [heq] at hop
            cases hop
        · rw [heq] at hop
          cases hop
    | released heq =>
        rcases heq with heq | heq
        · rw [heq] at hop
          cases hop
        · rw [heq] at hop
          cases hop
    | moved => cases hop
    | assigned => cases hop
    | replaced => cases hop
  · intro hrequest hcode
    cases h with
    | noNode other hnot => exact absurd hrequest hnot
    | newNode parent capacityBytes hnot => exact absurd hrequest hnot
    | reserved => exact absurd rfl hcode
    | refused _ _ nodes given hnodes hgiven =>
        refine ⟨?_, rfl, ?_⟩
        · rcases hnodes with rfl | ⟨start, -, rfl⟩
          · rfl
          · apply List.ext_getElem?
            intro node
            rw [List.getElem?_map, List.getElem?_map, getElem?_changed]
            cases system.nodes[node]? with
            | none => rfl
            | some state =>
                rw [Option.map_some, Option.map_some, Option.map_some]
                split_ifs
                · rfl
                · rfl
        · rcases hgiven with ⟨rfl, -⟩ | ⟨⟨reservation, rfl, hnone⟩, -⟩
          · exact Or.inl (List.append_nil _)
          · exact Or.inr ⟨reservation, hnone, rfl⟩
    | partitioned => exact absurd rfl hcode
    | committed => exact absurd rfl hcode
    | idle hidle =>
        rcases hidle with ⟨other, heq, -⟩ | ⟨other, heq⟩
        · rcases heq with heq | heq
          · rw [heq] at hrequest
            exact absurd hrequest id
          · rw [heq] at hrequest
            exact absurd hrequest id
        · rw [heq] at hrequest
          exact absurd hrequest id
    | released => exact absurd rfl hcode
    | moved => exact absurd rfl hcode
    | assigned => exact absurd rfl hcode
    | replaced => exact absurd rfl hcode

/-- **Conservation.**  In every run, at every node: each current value is the sum of the charges of
the reservations alive at the node or below, the node is not used beyond its capacity, each mark is
the maximum over the run, and the releases below are counted.  Every charge issued is owned by one
reservation and not released, or released once and owned by none.  Every further call ends without
a sum or difference leaving its words, admits exactly what there is room for, and changes only
rejection counts when it rejects. -/
theorem storage_conservation {system : System} {past : List System} {ledger : Ledger}
    (h : Run (system :: past) ledger) :
    (∀ (node : Nat) (state : State), system.nodes[node]? = some state →
      (∀ measure, state.now measure = system.held measure node ∧
        state.peak measure = peakOver measure node (system :: past)) ∧
      state.allocatedBytes + state.reservedBytes ≤ state.capacityBytes ∧
      state.refundCount = min wordMax (ledger.releasesBelow system.parents node)) ∧
    (∀ charge, ledger.ownedTimes charge + ledger.releasedTimes charge =
      if charge < ledger.next then 1 else 0) ∧
    (ledger.owners.map Option.isSome =
      system.reservations.map fun reservation => reservation.state.isSome) ∧
    ∀ op : Op, op.Names system → ∃ code next,
      (system.step op : Checked Unit (ReasonCode × System)) = Except.ok (code, next) ∧
        Promised system op code next := by
  obtain ⟨current, earlier, heq, hsound, hkeeps, hmarked⟩ := h.invariant
  injection heq with hcurrent hearlier
  subst hcurrent hearlier
  refine ⟨?_, hkeeps.owns.once, hkeeps.owns.owners, ?_⟩
  · intro node state hget
    exact ⟨fun measure => ⟨hsound.books node state hget measure, hmarked.1 node state hget measure⟩,
      (hsound.bounded node state hget).room, hkeeps.counts.counts node state hget⟩
  · intro op hop
    obtain ⟨code, next, hstep, heffect⟩ := hsound.step_effect (ε := Unit) hop
    exact ⟨code, next, hstep, heffect.promised⟩

/-- A root of ten bytes with none, and with four, of them reserved. -/
def oneBudget : System where
  nodes := [{ parent := none, capacityBytes := 10 }]
  budgets := [{ state := some 0, code := .ok }]

def reservedNode : State where
  parent := none
  capacityBytes := 10
  reservedBytes := 4
  peakReservedBytes := 4
  peakUsedBytes := 4
  reservationCount := 1

def oneReservation : System where
  nodes := [reservedNode]
  budgets := [{ state := some 0, code := .ok }]
  reservations := [{ state := some 0, maxAllocatedBytes := 4, code := .ok }]

theorem storage_conservation_oneReservation :
    (∀ measure, reservedNode.now measure = oneReservation.held measure 0) ∧
    ∃ code next, (oneReservation.step (.reserve 0 7) : Checked Unit (ReasonCode × System)) =
      Except.ok (code, next) ∧ Promised oneReservation (.reserve 0 7) code next := by
  have hcreated : (({} : System).step (.create 10 true) : Checked Unit (ReasonCode × System)) =
      Except.ok (.ok, oneBudget) := rfl
  have hreserved : (oneBudget.step (.reserve 0 4) : Checked Unit (ReasonCode × System)) =
      Except.ok (.ok, oneReservation) := rfl
  have hnames : (Op.reserve 0 4).Names oneBudget := Nat.zero_lt_one
  have hrun := (Run.start.step (show (Op.create 10 true).Names {} from trivial) hcreated).step hnames
    hreserved
  have hconserved := storage_conservation hrun
  exact ⟨fun measure => ((hconserved.1 0 reservedNode rfl).1 measure).1,
    hconserved.2.2.2 (.reserve 0 7) (show 0 < 1 from Nat.zero_lt_one)⟩

end RunD.Storage
