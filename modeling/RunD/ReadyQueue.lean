/-
The queue of ready tasks: a fixed number of slots, threaded by one table of
links into the chain of the live ones and the chain of the free ones.

A slot has a number from one on, and zero ends a chain.  `Chained q live free`
says that the chains run over `live` and over `free`, and that the two together
have every slot exactly once; so no chain meets itself or the other one.
`Holds q ids` adds what the live slots hold.  Each operation takes a slot from
one chain to the other and keeps this, with the ids that a plain bounded list
has after the same operation.
-/
import RunD.Checked
import RunD.LinkedQueue
import Mathlib.Algebra.Order.Ring.Nat

namespace RunD

/-- `ReadyQueue`. -/
structure ReadyQueue where
  ids : List UInt64 := []
  next : List Nat := []
  head : Nat := 0
  tail : Nat := 0
  free : Nat := 0
  size : Nat := 0
  deriving DecidableEq, Repr

/-- A walk that does not end within as many turns as there are slots. -/
inductive Endless where
  | endless
  deriving DecidableEq, Repr

namespace ReadyQueue

abbrev Queueing (β : Type) := Checked Endless β

/-! ### The operations -/

/-- `clear`; the numbers of slots are words of 32 bits. -/
def clear (q : ReadyQueue) : ReadyQueue where
  ids := List.replicate q.ids.length 0
  next := (List.range q.ids.length).map fun index =>
    if index + 1 < q.ids.length then (index + 2) % 2 ^ 32 else 0
  head := 0
  tail := 0
  free := if q.ids.isEmpty then 0 else 1
  size := 0

/-- `configure`. -/
def configure (capacity : Nat) : ReadyQueue :=
  clear { ids := List.replicate capacity 0, next := List.replicate capacity 0 }

/-- `capacity`. -/
def capacity (q : ReadyQueue) : Nat := q.ids.length

/-- `front`: none when it returns false. -/
def front (q : ReadyQueue) : Queueing (Option UInt64) :=
  if q.head = 0 then pure none
  else do
    let id ← fetch q.ids (q.head - 1)
    pure (some id)

/-- `claim`: the slot, zero when there is none. -/
def claim (q : ReadyQueue) (id : UInt64) : Queueing (Nat × ReadyQueue) :=
  if id = 0 ∨ q.free = 0 then pure (0, q)
  else do
    let slot := q.free
    let following ← fetch q.next (slot - 1)
    let ids ← assign q.ids (slot - 1) id
    let next ← assign q.next (slot - 1) 0
    pure (slot, { q with ids := ids, next := next, free := following, size := q.size + 1 })

/-- `release`. -/
def release (q : ReadyQueue) (slot : Nat) : Queueing ReadyQueue := do
  let ids ← assign q.ids (slot - 1) 0
  let next ← assign q.next (slot - 1) q.free
  pure { q with ids := ids, next := next, free := slot, size := q.size - 1 }

/-- The rest of `push_back`, with a slot. -/
def appendSlot (q : ReadyQueue) (slot : Nat) : Queueing ReadyQueue :=
  if q.tail = 0 then pure { q with head := slot, tail := slot }
  else do
    let next ← assign q.next (q.tail - 1) slot
    pure { q with next := next, tail := slot }

/-- `push_back`. -/
def pushBack (q : ReadyQueue) (id : UInt64) : Queueing (Bool × ReadyQueue) := do
  let (slot, q) ← q.claim id
  if slot = 0 then pure (false, q)
  else do
    let q ← q.appendSlot slot
    pure (true, q)

/-- `push_front`. -/
def pushFront (q : ReadyQueue) (id : UInt64) : Queueing (Bool × ReadyQueue) := do
  let (slot, q) ← q.claim id
  if slot = 0 then pure (false, q)
  else do
    let next ← assign q.next (slot - 1) q.head
    pure (true, { q with next := next, head := slot, tail := if q.tail = 0 then slot else q.tail })

/-- `pop_front`: none when it returns false. -/
def popFront (q : ReadyQueue) : Queueing (Option UInt64 × ReadyQueue) :=
  if q.head = 0 then pure (none, q)
  else do
    let slot := q.head
    let id ← fetch q.ids (slot - 1)
    let following ← fetch q.next (slot - 1)
    let q ← release { q with head := following, tail := if following = 0 then 0 else q.tail } slot
    pure (some id, q)

/-- The link that leads to a slot is led past it. -/
def relink (q : ReadyQueue) (previous following : Nat) : Queueing ReadyQueue :=
  if previous = 0 then pure { q with head := following }
  else do
    let next ← assign q.next (previous - 1) following
    pure { q with next := next }

/-- `unlink`. -/
def unlink (q : ReadyQueue) (previous slot : Nat) : Queueing ReadyQueue := do
  let following ← fetch q.next (slot - 1)
  let q ← q.relink previous following
  release { q with tail := if q.tail = slot then previous else q.tail } slot

/-- The walk of `take_first`. -/
def takeLoop (q : ReadyQueue) (predicate : UInt64 → Bool) :
    Nat → Nat → Nat → Queueing (Option UInt64 × ReadyQueue)
  | 0, _, slot => if slot = 0 then pure (none, q) else leave .endless
  | turns + 1, previous, slot =>
      if slot = 0 then pure (none, q)
      else do
        let candidate ← fetch q.ids (slot - 1)
        if predicate candidate then do
          let q ← q.unlink previous slot
          pure (some candidate, q)
        else do
          let following ← fetch q.next (slot - 1)
          takeLoop q predicate turns slot following

/-- `take_first`: none when it returns false. -/
def takeFirst (q : ReadyQueue) (predicate : UInt64 → Bool) :
    Queueing (Option UInt64 × ReadyQueue) :=
  q.takeLoop predicate q.ids.length 0 q.head

/-- `remove`. -/
def remove (q : ReadyQueue) (id : UInt64) : Queueing (Bool × ReadyQueue) := do
  let (removed, q) ← q.takeFirst fun candidate => candidate == id
  pure (removed.isSome, q)

/-! ### A plain bounded list -/

/-- The calls of a queue. -/
inductive Operation where
  | pushBack (id : UInt64)
  | pushFront (id : UInt64)
  | popFront
  | takeFirst (predicate : UInt64 → Bool)
  | remove (id : UInt64)
  | clear

/-- What a call returns, with the id that it hands out. -/
inductive Answer where
  | pushed (accepted : Bool)
  | taken (id : Option UInt64)
  | removed (found : Bool)
  | cleared
  deriving DecidableEq, Repr

/-- A call of the queue. -/
def step (q : ReadyQueue) : Operation → Queueing (Answer × ReadyQueue)
  | .pushBack id => do
      let (accepted, q) ← q.pushBack id
      pure (.pushed accepted, q)
  | .pushFront id => do
      let (accepted, q) ← q.pushFront id
      pure (.pushed accepted, q)
  | .popFront => do
      let (id, q) ← q.popFront
      pure (.taken id, q)
  | .takeFirst predicate => do
      let (id, q) ← q.takeFirst predicate
      pure (.taken id, q)
  | .remove id => do
      let (found, q) ← q.remove id
      pure (.removed found, q)
  | .clear => pure (.cleared, q.clear)

/-- The same call of a list of ids with room for `room` of them. -/
def listStep (room : Nat) (ids : List UInt64) : Operation → Answer × List UInt64
  | .pushBack id =>
      if id = 0 ∨ ids.length = room then (.pushed false, ids) else (.pushed true, ids ++ [id])
  | .pushFront id =>
      if id = 0 ∨ ids.length = room then (.pushed false, ids) else (.pushed true, id :: ids)
  | .popFront => (.taken ids.head?, ids.tail)
  | .takeFirst predicate => (.taken (ids.find? predicate), ids.eraseP predicate)
  | .remove id => (.removed (ids.contains id), ids.erase id)
  | .clear => (.cleared, [])

/-- Calls one after the other. -/
def run (q : ReadyQueue) : List Operation → Queueing (List Answer × ReadyQueue)
  | [] => pure ([], q)
  | operation :: operations => do
      let (answer, q) ← q.step operation
      let (answers, q) ← q.run operations
      pure (answer :: answers, q)

def listRun (room : Nat) (ids : List UInt64) : List Operation → List Answer × List UInt64
  | [] => ([], ids)
  | operation :: operations =>
      let rest := listRun room (listStep room ids operation).2 operations
      ((listStep room ids operation).1 :: rest.1, rest.2)

/-! ### The chains -/

/-- The place of a slot in the tables. -/
abbrev place (slot : Nat) : Nat := slot - 1

/-- The live chain and the free chain; together they have every slot once. -/
structure Chained (q : ReadyQueue) (live free : List Nat) : Prop where
  live_links : Links place q.next q.head live
  free_links : Links place q.next q.free free
  slots : (live ++ free).Perm (List.range' 1 q.ids.length)
  sizes : q.next.length = q.ids.length
  tail_eq : q.tail = live.getLast?.getD 0
  size_eq : q.size = live.length

/-- What the slots hold, in the order of the chain. -/
def held (ids : List UInt64) (slots : List Nat) : List (Option UInt64) :=
  slots.map fun slot => ids[slot - 1]?

/-- The queue has the slots of `live`, and they hold `contents`. -/
structure Holds (q : ReadyQueue) (live free : List Nat) (contents : List UInt64) : Prop where
  chained : q.Chained live free
  held_eq : held q.ids live = contents.map some

variable {q : ReadyQueue} {live free before after slots : List Nat} {contents : List UInt64}
  {s : Nat}

theorem place_notMem (hs : 0 < s) (hpos : ∀ a ∈ slots, 0 < a) (h : s ∉ slots) :
    place s ∉ slots.map place := by
  intro hmem
  obtain ⟨a, ha, heq⟩ := List.mem_map.mp hmem
  have hpos' := hpos a ha
  have hsame : a = s := by
    simp only [place] at heq
    omega
  exact h (hsame ▸ ha)

theorem nodup_places (hpos : ∀ a ∈ slots, 0 < a) (h : slots.Nodup) : (slots.map place).Nodup := by
  apply h.map_on
  intro a ha b hb heq
  have ha' := hpos a ha
  have hb' := hpos b hb
  simp only [place] at heq
  omega

/-- The link of a slot is led elsewhere. -/
theorem redirect_slot {front rest others next : List Nat} {first p x : Nat}
    (hlinks : Links place next first (front ++ p :: rest)) (hpos : ∀ a ∈ front ++ [p], 0 < a)
    (hnodup : (front ++ [p]).Nodup) (hplace : p - 1 < next.length)
    (hothers : Links place (next.set (p - 1) x) x others) :
    Links place (next.set (p - 1) x) first (front ++ p :: others) := by
  apply hlinks.redirect (nodup_places hpos hnodup) _ (List.getElem?_set_self hplace) hothers
  intro b hb
  have hb' := hpos b (List.mem_append_left _ hb)
  have hp' := hpos p (List.mem_append_right _ (List.mem_singleton_self p))
  have hne : b ≠ p := by
    rintro rfl
    exact (List.nodup_append.mp hnodup).2.2 b hb b (List.mem_singleton_self b) rfl
  rw [List.getElem?_set_ne]
  simp only [place]
  omega

/-- A slot that is not among them can be overwritten. -/
theorem held_set (hs : 0 < s) (hpos : ∀ a ∈ slots, 0 < a) (h : s ∉ slots) (ids : List UInt64)
    (x : UInt64) : held (ids.set (s - 1) x) slots = held ids slots := by
  apply List.map_congr_left
  intro a ha
  have hpos' := hpos a ha
  have hne : a ≠ s := fun heq => h (heq ▸ ha)
  rw [List.getElem?_set_ne]
  omega

namespace Chained

theorem nodup (h : q.Chained live free) : (live ++ free).Nodup :=
  h.slots.nodup_iff.mpr List.nodup_range'

theorem mem_slots (h : q.Chained live free) {a : Nat} (ha : a ∈ live ++ free) :
    0 < a ∧ a - 1 < q.ids.length := by
  have hmem := h.slots.mem_iff.mp ha
  rw [List.mem_range'_1] at hmem
  omega

theorem pos_live (h : q.Chained live free) : ∀ a ∈ live, 0 < a := fun _ ha =>
  (h.mem_slots (List.mem_append_left _ ha)).1

theorem pos_free (h : q.Chained live free) : ∀ a ∈ free, 0 < a := fun _ ha =>
  (h.mem_slots (List.mem_append_right _ ha)).1

/-- Live and free slots are all the slots. -/
theorem length_eq (h : q.Chained live free) : live.length + free.length = q.ids.length := by
  have hlength := h.slots.length_eq
  rwa [List.length_append, List.length_range'] at hlength

theorem head_eq_zero_iff (h : q.Chained live free) : q.head = 0 ↔ live = [] := by
  have hfirst := h.live_links.first_eq
  cases live with
  | nil => simp [hfirst]
  | cons s rest =>
      have hs := h.pos_live s (List.mem_cons_self ..)
      have hhead : q.head = s := hfirst
      simp only [hhead, reduceCtorEq, iff_false]
      omega

theorem free_eq_zero_iff (h : q.Chained live free) : q.free = 0 ↔ free = [] := by
  have hfirst := h.free_links.first_eq
  cases free with
  | nil => simp [hfirst]
  | cons s rest =>
      have hs := h.pos_free s (List.mem_cons_self ..)
      have hfree : q.free = s := hfirst
      simp only [hfree, reduceCtorEq, iff_false]
      omega

theorem tail_eq_zero_iff (h : q.Chained live free) : q.tail = 0 ↔ live = [] := by
  have htail := h.tail_eq
  rcases List.eq_nil_or_concat live with rfl | ⟨front, last, rfl⟩
  · simp [htail]
  · rw [List.concat_eq_append] at h htail ⊢
    rw [List.getLast?_concat, Option.getD_some] at htail
    have hlast := h.pos_live last (by simp)
    simp only [htail, List.append_eq_nil_iff, List.cons_ne_self, and_false, iff_false]
    omega

/-- A slot of the live chain is met once, and is not free. -/
theorem notMem_of_split (h : q.Chained (before ++ s :: after) free) :
    s ∉ before ++ (after ++ free) := by
  have hnodup := h.nodup
  rw [List.append_assoc, List.cons_append] at hnodup
  exact (List.nodup_middle.mp hnodup).notMem

theorem set_links (h : q.Chained live free) {next : List Nat} {first x : Nat}
    (hlinks : Links place next first slots) (hs : s ∈ live ++ free)
    (hslots : ∀ a ∈ slots, a ∈ live ++ free) (hno : s ∉ slots) :
    Links place (next.set (s - 1) x) first slots := by
  apply hlinks.set_of_notMem
  exact place_notMem (h.mem_slots hs).1 (fun a ha => (h.mem_slots (hslots a ha)).1) hno

end Chained

/-! ### A slot goes back -/

/-- The end of the chain after a slot is taken out. -/
theorem tail_unlink (h : q.Chained (before ++ s :: after) free) :
    (if q.tail = s then before.getLast?.getD 0 else q.tail) =
      (before ++ after).getLast?.getD 0 := by
  have htail := h.tail_eq
  rcases List.eq_nil_or_concat after with rfl | ⟨front, last, rfl⟩
  · rw [List.getLast?_concat, Option.getD_some] at htail
    rw [if_pos htail, List.append_nil]
  · have hnodup := (List.nodup_append.mp h.nodup).1
    rw [List.concat_eq_append, ← List.cons_append, ← List.append_assoc, List.getLast?_concat,
      Option.getD_some] at htail
    rw [List.concat_eq_append] at hnodup
    have hne : s ≠ last := by
      rintro rfl
      have hmiddle := (List.nodup_append.mp hnodup).2.1
      exact (List.nodup_cons.mp hmiddle).1 (List.mem_append_right _ (List.mem_singleton_self s))
    rw [htail, if_neg (Ne.symm hne), List.concat_eq_append, ← List.append_assoc,
      List.getLast?_concat, Option.getD_some]

/-- The link that led to a slot leads past it. -/
theorem relink_eq (h : q.Chained (before ++ s :: after) free) {following : Nat}
    (hnext : Links place q.next following after) :
    ∃ q', q.relink (before.getLast?.getD 0) following = Except.ok q' ∧
      Links place q'.next q'.head (before ++ after) ∧ Links place q'.next q'.free free ∧
      q'.next.length = q.next.length ∧ q'.ids = q.ids ∧ q'.tail = q.tail ∧ q'.size = q.size := by
  have hlive := h.live_links
  rcases List.eq_nil_or_concat before with rfl | ⟨front, p, rfl⟩
  · exact ⟨_, rfl, hnext, h.free_links, rfl, rfl, rfl, rfl⟩
  rw [List.concat_eq_append] at h hlive ⊢
  rw [List.append_assoc, List.singleton_append] at h hlive
  have hp : p ∈ front ++ p :: s :: after ++ free := by simp
  obtain ⟨hpos, hbound⟩ := h.mem_slots hp
  have hplace : p - 1 < q.next.length := by
    rw [h.sizes]
    exact hbound
  have hno := h.notMem_of_split
  rw [List.getLast?_concat, Option.getD_some, relink, if_neg (Nat.pos_iff_ne_zero.mp hpos),
    assign_of_lt hplace]
  refine ⟨_, rfl, ?_, ?_, List.length_set, rfl, rfl, rfl⟩
  · rw [List.append_assoc, List.singleton_append]
    have hsub : (front ++ [p]).Sublist (front ++ p :: s :: after ++ free) := by
      rw [List.append_assoc, List.cons_append]
      exact (List.Sublist.refl front).append (List.singleton_sublist.mpr (List.mem_cons_self ..))
    apply redirect_slot hlive _ (h.nodup.sublist hsub) hplace
    · exact h.set_links hnext hp (by grind) (by grind)
    · intro a ha
      exact (h.mem_slots (hsub.mem ha)).1
  · exact h.set_links h.free_links hp (by grind) (by grind)

/-- **A slot goes back**: the chain is closed around it, and it becomes the first free one. -/
theorem unlink_eq (h : q.Chained (before ++ s :: after) free) :
    ∃ q', q.unlink (before.getLast?.getD 0) s = Except.ok q' ∧
      q'.Chained (before ++ after) (s :: free) ∧ q'.ids = q.ids.set (s - 1) 0 := by
  obtain ⟨following, hfollowing, hrest⟩ := h.live_links.after
  obtain ⟨q', hrelink, hlive, hfree, hlength, hids, htail, hsize⟩ := relink_eq h hrest
  have hs : s ∈ before ++ s :: after ++ free := by simp
  obtain ⟨hpos, hbound⟩ := h.mem_slots hs
  have hno := h.notMem_of_split
  have hplace : s - 1 < q'.next.length := by
    rw [hlength, h.sizes]
    exact hbound
  rw [unlink, fetch_of_lt hfollowing, ok_bind, hrelink, ok_bind, release]
  dsimp only
  rw [hids, assign_of_lt hbound, ok_bind, assign_of_lt hplace, ok_bind]
  refine ⟨_, rfl, ⟨?_, ?_, ?_, ?_, ?_, ?_⟩, rfl⟩
  · exact h.set_links hlive hs (by grind) (by grind)
  · apply Links.cons (Nat.pos_iff_ne_zero.mp hpos) (List.getElem?_set_self hplace)
    exact h.set_links hfree hs (by grind) (by grind)
  · show (before ++ after ++ s :: free).Perm (List.range' 1 (q.ids.set (s - 1) 0).length)
    rw [List.length_set, List.append_assoc]
    refine List.Perm.trans ?_ h.slots
    rw [List.append_assoc]
    exact List.Perm.append_left before List.perm_middle
  · show (q'.next.set (s - 1) q'.free).length = (q.ids.set (s - 1) 0).length
    rw [List.length_set, List.length_set, hlength, h.sizes]
  · show (if q'.tail = s then _ else q'.tail) = _
    rw [htail]
    exact tail_unlink h
  · show q'.size - 1 = _
    rw [hsize, h.size_eq]
    simp

/-- Popping takes the first slot out. -/
theorem popFront_eq (h : q.Chained (s :: after) free) {id : UInt64}
    (hid : q.ids[s - 1]? = some id) :
    q.popFront = (q.unlink 0 s).bind fun rest => Except.ok (some id, rest) := by
  obtain ⟨following, hfollowing, hrest⟩ := h.live_links.uncons
  have hhead : q.head = s := h.live_links.first_eq
  have hpos := h.pos_live s (List.mem_cons_self ..)
  -- the new end, in the words of `pop_front` and of `unlink`
  have htail : (if following = 0 then 0 else q.tail) = if q.tail = s then 0 else q.tail := by
    have hunlink := tail_unlink (show q.Chained ([] ++ s :: after) free from h)
    rw [List.getLast?_nil, Option.getD_none, List.nil_append] at hunlink
    rw [hunlink]
    cases after with
    | nil =>
        have hzero : following = 0 := hrest.first_eq
        rw [if_pos hzero]
        rfl
    | cons r rest =>
        have hr : following = r := hrest.first_eq
        have hr' := h.pos_live r (by simp)
        rw [if_neg (by omega), h.tail_eq, List.getLast?_cons_cons]
  rw [popFront, if_neg (by omega), hhead]
  dsimp only
  rw [fetch_of_lt hid, ok_bind, fetch_of_lt hfollowing, ok_bind, unlink, fetch_of_lt hfollowing,
    ok_bind, htail]
  rfl

/-! ### A slot is taken -/

/-- The first free slot gets an id, and ends a chain of its own. -/
theorem claim_eq (h : q.Chained live (s :: after)) {id : UInt64} (hid : id ≠ 0) :
    ∃ q', q.claim id = Except.ok (s, q') ∧ q'.ids = q.ids.set (s - 1) id ∧
      q'.next.length = q.next.length ∧ q'.next[s - 1]? = some 0 ∧
      Links place q'.next q.head live ∧ Links place q'.next q'.free after ∧
      q'.head = q.head ∧ q'.tail = q.tail ∧ q'.size = q.size + 1 := by
  obtain ⟨following, hfollowing, hrest⟩ := h.free_links.uncons
  have hfree : q.free = s := h.free_links.first_eq
  have hs : s ∈ live ++ s :: after := by simp
  obtain ⟨hpos, hbound⟩ := h.mem_slots hs
  have hno := (List.nodup_middle.mp h.nodup).notMem
  have hplace : s - 1 < q.next.length := by
    rw [h.sizes]
    exact hbound
  rw [claim, hfree, if_neg (not_or.mpr ⟨hid, by omega⟩)]
  dsimp only
  rw [fetch_of_lt hfollowing, ok_bind, assign_of_lt hbound, ok_bind, assign_of_lt hplace, ok_bind]
  refine ⟨_, rfl, rfl, List.length_set, List.getElem?_set_self hplace, ?_, ?_, rfl, rfl, rfl⟩
  · exact h.set_links h.live_links hs (by grind) (by grind)
  · exact h.set_links hrest hs (by grind) (by grind)

/-- What a slot that was claimed holds. -/
theorem held_claim (h : q.Chained live (s :: after)) (id : UInt64) :
    held (q.ids.set (s - 1) id) live = held q.ids live ∧
      held (q.ids.set (s - 1) id) [s] = [some id] := by
  obtain ⟨hpos, hbound⟩ := h.mem_slots (a := s) (by simp)
  have hno := (List.nodup_middle.mp h.nodup).notMem
  constructor
  · exact held_set hpos h.pos_live (by grind) q.ids id
  · rw [held, List.map_singleton, List.getElem?_set_self hbound]

/-- A slot that was claimed is linked to the end. -/
theorem appendSlot_eq {q' : ReadyQueue} (h : q.Chained live (s :: after))
    (hlength : q'.next.length = q.next.length) (hzero : q'.next[s - 1]? = some 0)
    (hlive : Links place q'.next q.head live) (hfree : Links place q'.next q'.free after)
    (hhead : q'.head = q.head) (htail : q'.tail = q.tail) :
    ∃ r, q'.appendSlot s = Except.ok r ∧ Links place r.next r.head (live ++ [s]) ∧
      Links place r.next r.free after ∧ r.next.length = q'.next.length ∧ r.tail = s ∧
      r.ids = q'.ids ∧ r.size = q'.size := by
  have hs : s ∈ live ++ s :: after := by simp
  obtain ⟨hpos, hbound⟩ := h.mem_slots hs
  have hend : Links place q'.next s [s] :=
    Links.cons (Nat.pos_iff_ne_zero.mp hpos) hzero Links.nil
  rw [appendSlot, htail]
  rcases List.eq_nil_or_concat live with rfl | ⟨front, p, rfl⟩
  · rw [if_pos (h.tail_eq_zero_iff.mpr rfl)]
    exact ⟨_, rfl, hend, hfree, rfl, rfl, rfl, rfl⟩
  rw [List.concat_eq_append] at h hlive hs ⊢
  have hp : p ∈ front ++ [p] ++ s :: after := by simp
  have hlast : q.tail = p := by
    rw [h.tail_eq, List.getLast?_concat, Option.getD_some]
  have hplace : p - 1 < q'.next.length := by
    rw [hlength, h.sizes]
    exact (h.mem_slots hp).2
  have hno := h.notMem_of_split
  rw [hlast, if_neg (Nat.pos_iff_ne_zero.mp (h.mem_slots hp).1), assign_of_lt hplace, ok_bind]
  refine ⟨_, rfl, ?_, ?_, List.length_set, rfl, rfl, rfl⟩
  · show Links place (q'.next.set (p - 1) s) q'.head (front ++ [p] ++ [s])
    rw [hhead, List.append_assoc, List.singleton_append]
    apply redirect_slot hlive h.pos_live (List.nodup_append.mp h.nodup).1 hplace
    exact h.set_links hend hp (by grind) (by grind)
  · exact h.set_links hfree hp (by grind) (by grind)

/-- **A slot is appended** to the live chain. -/
theorem pushBack_eq (h : q.Holds live (s :: after) contents) {id : UInt64} (hid : id ≠ 0) :
    ∃ q', q.pushBack id = Except.ok (true, q') ∧
      q'.Holds (live ++ [s]) after (contents ++ [id]) ∧ q'.ids.length = q.ids.length := by
  have hchained := h.chained
  obtain ⟨q', hclaim, hids, hlength, hzero, hlive, hfree, hhead, htail, hsize⟩ :=
    claim_eq hchained hid
  have hs : s ∈ live ++ s :: after := by simp
  obtain ⟨hpos, hbound⟩ := hchained.mem_slots hs
  have hno := (List.nodup_middle.mp hchained.nodup).notMem
  obtain ⟨hheld, hnew⟩ := held_claim hchained id
  obtain ⟨r, happend, hr⟩ := appendSlot_eq hchained hlength hzero hlive hfree hhead htail
  rw [pushBack, hclaim, ok_bind]
  dsimp only
  rw [if_neg (by omega), happend, ok_bind]
  obtain ⟨hlive', hfree', hlength', htail', hids', hsize'⟩ := hr
  refine ⟨_, rfl, ⟨⟨hlive', hfree', ?_, ?_, ?_, ?_⟩, ?_⟩, ?_⟩
  · rw [hids', hids, List.length_set, List.append_assoc]
    exact hchained.slots
  · rw [hlength', hlength, hids', hids, List.length_set, hchained.sizes]
  · rw [htail', List.getLast?_concat, Option.getD_some]
  · rw [hsize', hsize, hchained.size_eq, List.length_append, List.length_singleton]
  · rw [hids', hids, held, List.map_append, List.map_append, ← h.held_eq, ← hheld]
    exact congrArg (held _ live ++ ·) hnew
  · rw [hids', hids, List.length_set]

/-- **A slot is put in front** of the live chain. -/
theorem pushFront_eq (h : q.Holds live (s :: after) contents) {id : UInt64} (hid : id ≠ 0) :
    ∃ q', q.pushFront id = Except.ok (true, q') ∧
      q'.Holds (s :: live) after (id :: contents) ∧ q'.ids.length = q.ids.length := by
  have hchained := h.chained
  obtain ⟨q', hclaim, hids, hlength, hzero, hlive, hfree, hhead, htail, hsize⟩ :=
    claim_eq hchained hid
  have hs : s ∈ live ++ s :: after := by simp
  obtain ⟨hpos, hbound⟩ := hchained.mem_slots hs
  have hno := (List.nodup_middle.mp hchained.nodup).notMem
  obtain ⟨hheld, hnew⟩ := held_claim hchained id
  have hplace : s - 1 < q'.next.length := by
    rw [hlength, hchained.sizes]
    exact hbound
  rw [pushFront, hclaim, ok_bind]
  dsimp only
  rw [if_neg (by omega), assign_of_lt hplace, ok_bind]
  refine ⟨_, rfl, ⟨⟨?_, ?_, ?_, ?_, ?_, ?_⟩, ?_⟩, ?_⟩
  · apply Links.cons (Nat.pos_iff_ne_zero.mp hpos) (List.getElem?_set_self hplace)
    rw [hhead]
    exact hchained.set_links hlive hs (by grind) (by grind)
  · exact hchained.set_links hfree hs (by grind) (by grind)
  · show (s :: live ++ after).Perm (List.range' 1 q'.ids.length)
    rw [hids, List.length_set]
    exact List.perm_middle.symm.trans hchained.slots
  · show (q'.next.set (s - 1) q'.head).length = q'.ids.length
    rw [List.length_set, hlength, hids, List.length_set, hchained.sizes]
  · show (if q'.tail = 0 then s else q'.tail) = (s :: live).getLast?.getD 0
    rw [htail]
    cases live with
    | nil => rw [if_pos (hchained.tail_eq_zero_iff.mpr rfl), List.getLast?_singleton, Option.getD_some]
    | cons r rest =>
        rw [if_neg fun hzero => List.cons_ne_nil r rest (hchained.tail_eq_zero_iff.mp hzero),
          hchained.tail_eq, List.getLast?_cons_cons]
  · show q'.size = (s :: live).length
    rw [hsize, hchained.size_eq]
    rfl
  · show held q'.ids (s :: live) = (id :: contents).map some
    rw [hids]
    show held _ [s] ++ held _ live = _
    rw [hnew, hheld, h.held_eq]
    rfl
  · show q'.ids.length = q.ids.length
    rw [hids, List.length_set]

/-! ### The walk -/

theorem held_append (ids : List UInt64) (first rest : List Nat) :
    held ids (first ++ rest) = held ids first ++ held ids rest := List.map_append

theorem held_rest {ids passed ahead : List UInt64} {first rest : List Nat}
    (h : held ids (first ++ rest) = (passed ++ ahead).map some)
    (hfirst : held ids first = passed.map some) : held ids rest = ahead.map some := by
  rw [held_append, hfirst, List.map_append] at h
  exact List.append_cancel_left h

/-- Taking a slot out of the chain takes its id out of the contents. -/
theorem holds_unlink (h : q.Holds (before ++ s :: after) free contents) {passed ahead : List UInt64}
    {id : UInt64} (hcontents : contents = passed ++ id :: ahead)
    (hbefore : held q.ids before = passed.map some) :
    ∃ q', q.unlink (before.getLast?.getD 0) s = Except.ok q' ∧
      q'.Holds (before ++ after) (s :: free) (passed ++ ahead) ∧
      q'.ids.length = q.ids.length := by
  obtain ⟨q', hunlink, hchained, hids⟩ := unlink_eq h.chained
  have hs := (h.chained.mem_slots (a := s) (by simp)).1
  have hno := h.chained.notMem_of_split
  have hall := h.held_eq
  rw [hcontents] at hall
  have hrest : held q.ids (s :: after) = (id :: ahead).map some := held_rest hall hbefore
  have hafter : held q.ids after = ahead.map some := (List.cons.inj hrest).2
  refine ⟨q', hunlink, ⟨hchained, ?_⟩, by rw [hids, List.length_set]⟩
  rw [hids, held_set hs _ (by grind), held_append, List.map_append, ← hbefore, ← hafter]
  intro a ha
  exact h.chained.pos_live a (by grind)

/-- **The walk** takes the first id ahead that satisfies the predicate. -/
theorem takeLoop_eq (predicate : UInt64 → Bool) (ahead : List UInt64) :
    ∀ (turns slot : Nat) (before rest : List Nat) (passed : List UInt64),
      q.Holds (before ++ rest) free (passed ++ ahead) → held q.ids before = passed.map some →
      Links place q.next slot rest → rest.length ≤ turns →
      ∃ q' live' free', q.takeLoop predicate turns (before.getLast?.getD 0) slot =
          Except.ok (ahead.find? predicate, q') ∧
        q'.Holds live' free' (passed ++ ahead.eraseP predicate) ∧
        q'.ids.length = q.ids.length := by
  induction ahead with
  | nil =>
      intro turns slot before rest passed h hbefore hlinks hturns
      have hrest := List.map_eq_nil_iff.mp (held_rest h.held_eq hbefore)
      subst hrest
      have hslot : slot = 0 := hlinks.first_eq
      refine ⟨q, before ++ [], free, ?_, h, rfl⟩
      cases turns with
      | zero =>
          rw [takeLoop, if_pos hslot]
          rfl
      | succ turns =>
          rw [takeLoop, if_pos hslot]
          rfl
  | cons id ahead ih =>
      intro turns slot before rest passed h hbefore hlinks hturns
      have hrest := held_rest h.held_eq hbefore
      cases rest with
      | nil => cases hrest
      | cons s after =>
          have hslot : slot = s := hlinks.first_eq
          have hs := (h.chained.mem_slots (a := s) (by simp)).1
          obtain ⟨hid, hafter⟩ := List.cons.inj hrest
          obtain ⟨following, hfollowing, hrest'⟩ := hlinks.uncons
          cases turns with
          | zero => cases hturns
          | succ turns =>
              rw [takeLoop, hslot, if_neg (by omega), fetch_of_lt hid, ok_bind]
              by_cases hpredicate : predicate id = true
              · obtain ⟨q', hunlink, hholds, hlength⟩ := holds_unlink h rfl hbefore
                rw [if_pos hpredicate, hunlink, ok_bind, List.find?_cons_of_pos hpredicate,
                  List.eraseP_cons_of_pos hpredicate]
                exact ⟨q', _, _, rfl, hholds, hlength⟩
              · -- the walk goes on behind the slot
                have hnext := ih turns following (before ++ [s]) after (passed ++ [id])
                rw [List.append_assoc, List.append_assoc, List.append_assoc, List.getLast?_concat,
                  held_append, hbefore, List.map_append] at hnext
                rw [if_neg hpredicate, fetch_of_lt hfollowing, ok_bind,
                  List.find?_cons_of_neg hpredicate, List.eraseP_cons_of_neg hpredicate]
                apply hnext h _ hrest' (Nat.le_of_succ_le_succ hturns)
                exact congrArg _ (congrArg (fun x => [x]) hid)

/-- `take_first` takes the first id that satisfies the predicate. -/
theorem takeFirst_eq (h : q.Holds live free contents) (predicate : UInt64 → Bool) :
    ∃ q' live' free', q.takeFirst predicate = Except.ok (contents.find? predicate, q') ∧
      q'.Holds live' free' (contents.eraseP predicate) ∧ q'.ids.length = q.ids.length := by
  have hlength := h.chained.length_eq
  exact takeLoop_eq predicate contents _ _ [] live [] h rfl h.chained.live_links (by omega)

/-- `pop_front` takes the first id. -/
theorem popFront_holds (h : q.Holds live free contents) :
    ∃ q' live' free', q.popFront = Except.ok (contents.head?, q') ∧
      q'.Holds live' free' contents.tail ∧ q'.ids.length = q.ids.length := by
  have hheld := h.held_eq
  cases contents with
  | nil =>
      have hlive := List.map_eq_nil_iff.mp hheld
      rw [popFront, if_pos (h.chained.head_eq_zero_iff.mpr hlive)]
      exact ⟨q, live, free, rfl, h, rfl⟩
  | cons id contents =>
      cases live with
      | nil => cases hheld
      | cons s after =>
          obtain ⟨hid, -⟩ := List.cons.inj hheld
          obtain ⟨q', hunlink, hholds, hlength⟩ :=
            holds_unlink (show q.Holds ([] ++ s :: after) free (id :: contents) from h)
              (show id :: contents = [] ++ id :: contents from rfl) rfl
          refine ⟨q', _, _, ?_, hholds, hlength⟩
          rw [popFront_eq h.chained hid]
          change q.unlink 0 s = _ at hunlink
          rw [hunlink]
          rfl

/-! ### An empty queue -/

/-- The links of a cleared queue run over all the slots. -/
theorem clear_links {n : Nat} (hn : n < 2 ^ 32) :
    ∀ (m k : Nat), k + m = n →
      Links place ((List.range n).map fun index => if index + 1 < n then (index + 2) % 2 ^ 32 else 0)
        (if k < n then k + 1 else 0) (List.range' (k + 1) m) := by
  intro m
  induction m with
  | zero =>
      intro k hk
      rw [if_neg (by omega)]
      exact Links.nil
  | succ m ih =>
      intro k hk
      have hnext := ih (k + 1) (by omega)
      rw [if_pos (by omega)]
      apply Links.cons (Nat.succ_ne_zero k) _ hnext
      show ((List.range n).map _)[k]? = _
      rw [List.getElem?_map, List.getElem?_range (by omega), Option.map_some]
      by_cases hlast : k + 1 < n
      · rw [if_pos hlast, if_pos hlast, Nat.mod_eq_of_lt (by omega)]
      · rw [if_neg hlast, if_neg hlast]

/-- A cleared queue is empty. -/
theorem holds_clear (hroom : q.ids.length < 2 ^ 32) :
    q.clear.Holds [] (List.range' 1 q.ids.length) [] := by
  refine ⟨⟨Links.nil, ?_, ?_, ?_, rfl, rfl⟩, rfl⟩
  · have hlinks := clear_links hroom q.ids.length 0 (Nat.zero_add _)
    have hfree : q.clear.free = if 0 < q.ids.length then 0 + 1 else 0 := by
      rw [clear]
      cases q.ids with
      | nil => rfl
      | cons id ids => rfl
    rw [hfree]
    exact hlinks
  · show (List.range' 1 q.ids.length).Perm (List.range' 1 (List.replicate q.ids.length 0).length)
    rw [List.length_replicate]
  · show ((List.range q.ids.length).map _).length = (List.replicate q.ids.length 0).length
    rw [List.length_map, List.length_range, List.length_replicate]

/-! ### Calls and runs -/

/-- The queue is full exactly if no slot is free. -/
theorem Holds.full_iff (h : q.Holds live free contents) :
    q.free = 0 ↔ contents.length = q.capacity := by
  have hlength := h.chained.length_eq
  have hcontents := congrArg List.length h.held_eq
  rw [held, List.length_map, List.length_map] at hcontents
  rw [h.chained.free_eq_zero_iff, capacity, ← hcontents, ← List.length_eq_zero_iff]
  omega

theorem Holds.size_eq (h : q.Holds live free contents) : q.size = contents.length := by
  have hcontents := congrArg List.length h.held_eq
  rw [held, List.length_map, List.length_map] at hcontents
  rw [h.chained.size_eq, hcontents]

/-- `front` is the first id. -/
theorem Holds.front_eq (h : q.Holds live free contents) :
    q.front = Except.ok contents.head? := by
  have hheld := h.held_eq
  cases live with
  | nil =>
      have hcontents := List.map_eq_nil_iff.mp hheld.symm
      rw [front, if_pos (h.chained.head_eq_zero_iff.mpr rfl), hcontents]
      rfl
  | cons s after =>
      cases contents with
      | nil => cases hheld
      | cons id contents =>
          have hhead : q.head = s := h.chained.live_links.first_eq
          have hs := h.chained.pos_live s (List.mem_cons_self ..)
          rw [front, if_neg (by omega), hhead, fetch_of_lt (List.cons.inj hheld).1]
          rfl

/-- A push finds no slot and leaves the queue alone, or there is a free slot. -/
theorem Holds.push_cases (h : q.Holds live free contents) (id : UInt64) :
    ((id = 0 ∨ contents.length = q.capacity) ∧ q.claim id = Except.ok (0, q)) ∨
      (¬ (id = 0 ∨ contents.length = q.capacity) ∧ id ≠ 0 ∧ ∃ s after, free = s :: after) := by
  have hfull := h.full_iff
  by_cases hrefused : id = 0 ∨ q.free = 0
  · refine Or.inl ⟨hrefused.imp_right hfull.mp, ?_⟩
    rw [claim, if_pos hrefused]
    rfl
  · obtain ⟨hid, hfree⟩ := not_or.mp hrefused
    refine Or.inr ⟨not_or.mpr ⟨hid, fun hroom => hfree (hfull.mpr hroom)⟩, hid, ?_⟩
    exact List.exists_cons_of_ne_nil fun hnil => hfree (h.chained.free_eq_zero_iff.mpr hnil)

/-- A push fails exactly if the id is zero or the queue is full. -/
theorem Holds.refused_iff (h : q.Holds live free contents) (id : UInt64) :
    ((∃ q', q.pushBack id = Except.ok (false, q')) ↔ id = 0 ∨ q.size = q.capacity) ∧
      ((∃ q', q.pushFront id = Except.ok (false, q')) ↔ id = 0 ∨ q.size = q.capacity) := by
  rw [h.size_eq]
  rcases h.push_cases id with ⟨hrefused, hclaim⟩ | ⟨hroom, hid, s, after, rfl⟩
  · constructor
    · rw [pushBack, hclaim]
      exact ⟨fun _ => hrefused, fun _ => ⟨q, rfl⟩⟩
    · rw [pushFront, hclaim]
      exact ⟨fun _ => hrefused, fun _ => ⟨q, rfl⟩⟩
  · constructor
    · obtain ⟨q', hpush, -, -⟩ := pushBack_eq h hid
      rw [hpush]
      simp [hroom]
    · obtain ⟨q', hpush, -, -⟩ := pushFront_eq h hid
      rw [hpush]
      simp [hroom]

/-- **One call** is the call of the list. -/
theorem step_eq (h : q.Holds live free contents) (hroom : q.capacity < 2 ^ 32)
    (operation : Operation) :
    ∃ q' live' free',
      q.step operation = Except.ok ((listStep q.capacity contents operation).1, q') ∧
      q'.Holds live' free' (listStep q.capacity contents operation).2 ∧
      q'.capacity = q.capacity := by
  cases operation with
  | pushBack id =>
      rw [step, listStep]
      rcases h.push_cases id with ⟨hrefused, hclaim⟩ | ⟨hroom', hid, s, after, rfl⟩
      · rw [if_pos hrefused, pushBack, hclaim]
        exact ⟨q, live, free, rfl, h, rfl⟩
      · obtain ⟨q', hpush, hholds, hlength⟩ := pushBack_eq h hid
        rw [if_neg hroom', hpush]
        exact ⟨q', _, _, rfl, hholds, hlength⟩
  | pushFront id =>
      rw [step, listStep]
      rcases h.push_cases id with ⟨hrefused, hclaim⟩ | ⟨hroom', hid, s, after, rfl⟩
      · rw [if_pos hrefused, pushFront, hclaim]
        exact ⟨q, live, free, rfl, h, rfl⟩
      · obtain ⟨q', hpush, hholds, hlength⟩ := pushFront_eq h hid
        rw [if_neg hroom', hpush]
        exact ⟨q', _, _, rfl, hholds, hlength⟩
  | popFront =>
      obtain ⟨q', live', free', hpop, hholds, hlength⟩ := popFront_holds h
      rw [step, hpop]
      exact ⟨q', live', free', rfl, hholds, hlength⟩
  | takeFirst predicate =>
      obtain ⟨q', live', free', htake, hholds, hlength⟩ := takeFirst_eq h predicate
      rw [step, htake]
      exact ⟨q', live', free', rfl, hholds, hlength⟩
  | remove id =>
      obtain ⟨q', live', free', htake, hholds, hlength⟩ := takeFirst_eq h (· == id)
      rw [step, remove, htake]
      have hfound : (contents.find? (· == id)).isSome = contents.contains id := by
        rw [Bool.eq_iff_iff]
        simp
      refine ⟨q', live', free', ?_, ?_, hlength⟩
      · show Except.ok (Answer.removed (contents.find? (· == id)).isSome, q') = _
        rw [hfound, listStep]
      · rw [listStep, List.erase_eq_eraseP']
        exact hholds
  | clear =>
      exact ⟨q.clear, _, _, rfl, holds_clear hroom, List.length_replicate⟩

/-- **A run** is the run of the list. -/
theorem run_eq : ∀ {operations : List Operation} {q : ReadyQueue} {live free : List Nat}
    {contents : List UInt64}, q.Holds live free contents → q.capacity < 2 ^ 32 →
    ∃ q' live' free',
      q.run operations = Except.ok ((listRun q.capacity contents operations).1, q') ∧
      q'.Holds live' free' (listRun q.capacity contents operations).2 ∧
      q'.capacity = q.capacity := by
  intro operations
  induction operations with
  | nil =>
      intro q live free contents h _
      exact ⟨q, live, free, rfl, h, rfl⟩
  | cons operation operations ih =>
      intro q live free contents h hroom
      obtain ⟨q', live', free', hstep, hholds, hcapacity⟩ := step_eq h hroom operation
      obtain ⟨q'', live'', free'', hrun, hholds', hcapacity'⟩ := ih hholds (hcapacity ▸ hroom)
      rw [hcapacity] at hrun hholds' hcapacity'
      refine ⟨q'', live'', free'', ?_, hholds', hcapacity'⟩
      rw [run, hstep, ok_bind]
      dsimp only
      rw [hrun]
      rfl

/-- **The ready queue is a bounded list**: after any calls of a configured queue, the answers and the
ids in order are those of the list, a push fails exactly if the id is zero or the queue is full, and
the live and the free chain have every slot exactly once. -/
theorem readyQueue_is_bounded_list {capacity : Nat} (hroom : capacity < 2 ^ 32)
    (operations : List Operation) :
    ∃ q live free,
      (configure capacity).run operations =
        Except.ok ((listRun capacity [] operations).1, q) ∧
      q.Holds live free (listRun capacity [] operations).2 ∧ q.capacity = capacity ∧
      q.size = (listRun capacity [] operations).2.length ∧
      q.front = Except.ok (listRun capacity [] operations).2.head? ∧
      ∀ id, ((∃ q', q.pushBack id = Except.ok (false, q')) ↔ id = 0 ∨ q.size = q.capacity) ∧
        ((∃ q', q.pushFront id = Except.ok (false, q')) ↔ id = 0 ∨ q.size = q.capacity) := by
  have hcapacity : (configure capacity).capacity = capacity := by
    rw [configure, clear, ReadyQueue.capacity, List.length_replicate, List.length_replicate]
  have hempty : (configure capacity).Holds [] (List.range' 1 capacity) [] := by
    have hclear := holds_clear
      (q := { ids := List.replicate capacity 0, next := List.replicate capacity 0 })
      (by rw [List.length_replicate]; exact hroom)
    rw [List.length_replicate] at hclear
    exact hclear
  obtain ⟨q, live, free, hrun, hholds, hsame⟩ :=
    run_eq hempty (hcapacity.symm ▸ hroom)
  rw [hcapacity] at hrun hholds hsame
  exact ⟨q, live, free, hrun, hholds, hsame, hholds.size_eq, hholds.front_eq, hholds.refused_iff⟩

/-- Two slots, filled from both ends, emptied in the middle and filled again. -/
theorem readyQueue_two :
    ∃ q live free, (configure 2).run [.pushBack 5, .pushFront 7, .pushBack 9, .remove 5,
        .pushBack 9, .popFront] =
      Except.ok ([.pushed true, .pushed true, .pushed false, .removed true, .pushed true,
        .taken (some 7)], q) ∧ q.Holds live free [9] := by
  obtain ⟨q, live, free, hrun, hholds, -⟩ :=
    readyQueue_is_bounded_list (show 2 < 2 ^ 32 by decide)
      [.pushBack 5, .pushFront 7, .pushBack 9, .remove 5, .pushBack 9, .popFront]
  exact ⟨q, live, free, hrun, hholds⟩

end ReadyQueue

end RunD
