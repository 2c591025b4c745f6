/-
A queue whose links lie in a table: every member has a slot, and the slot holds
the member that comes next.

The number zero is no member and ends the queue.  `Queued slot q ids` says that
the members are `ids`, in this order.  Pushing a member, taking one out of the
middle and popping the first one keep the queue, as long as no two members share
a slot.  Popping walks over what is left once more, since it takes out the member
that it has unlinked already.
-/
import Mathlib.Data.List.Nodup
import Mathlib.Data.List.Perm.Subperm
import Mathlib.Tactic.Common

namespace RunD

/-! ### The queue -/

/-- `std::vector::resize`. -/
def resized {α : Type} (xs : List α) (n : Nat) (x : α) : List α :=
  xs.take n ++ List.replicate (n - xs.length) x

/-- The links and marks by slot, and the two ends. -/
structure LinkedQueue where
  waiting : List Bool := []
  next : List Nat := []
  head : Nat := 0
  tail : Nat := 0
  count : Nat := 0
  deriving DecidableEq, Repr

namespace LinkedQueue

variable (slot : Nat → Nat) (q : LinkedQueue)

/-- Room for members with slots below a size. -/
def ensure (size : Nat) : LinkedQueue :=
  { q with waiting := resized q.waiting size false, next := resized q.next size 0 }

/-- The slot of a member is marked. -/
def active (a : Nat) : Bool := q.waiting[slot a]?.getD false

/-- A new last member; nothing when it has no slot. -/
def push (a : Nat) : Option LinkedQueue :=
  if slot a ≥ q.waiting.length then none
  else if q.active slot a then some q
  else
    let next := q.next.set (slot a) 0
    some
      { waiting := q.waiting.set (slot a) true
        next := if q.tail ≠ 0 then next.set (slot q.tail) a else next
        head := if q.tail ≠ 0 then q.head else a
        tail := a
        count := q.count + 1 }

/-- The links around a member are closed. -/
def cut (a previous following : Nat) : LinkedQueue :=
  { q with
    next := (if previous ≠ 0 then q.next.set (slot previous) following else q.next).set (slot a) 0
    head := if previous ≠ 0 then q.head else following
    tail := if q.tail = a then previous else q.tail }

/-- The walk to a member, in at most `fuel` turns. -/
def unlinkLoop (a : Nat) : Nat → Nat → Nat → LinkedQueue
  | 0, _, _ => q
  | fuel + 1, previous, current =>
      if current = 0 then q
      else
        match q.next[slot current]? with
        | none => q
        | some following =>
            let following := if following = current then 0 else following
            if current = a then q.cut slot a previous following
            else unlinkLoop a fuel current following

def unlink (a : Nat) : LinkedQueue :=
  if slot a ≥ q.next.length then q else q.unlinkLoop slot a q.next.length 0 q.head

/-- A member is taken out. -/
def remove (a : Nat) : LinkedQueue :=
  if q.active slot a then
    let rest := q.unlink slot a
    { rest with
      waiting := rest.waiting.set (slot a) false
      next := rest.next.set (slot a) 0
      count := rest.count - 1 }
  else q

/-- The queue without its first link. -/
def advance (following : Nat) : LinkedQueue :=
  { q with
    next := q.next.set (slot q.head) 0
    head := following
    tail := if following = 0 then 0 else q.tail }

/-- The turns that look for the first marked member. -/
def popLoop : Nat → LinkedQueue → Option Nat × LinkedQueue
  | 0, q => (none, q)
  | fuel + 1, q =>
      if q.head = 0 then (none, q)
      else
        match q.next[slot q.head]? with
        | none => (none, q)
        | some following =>
            let rest := q.advance slot following
            if rest.active slot q.head then (some q.head, rest.remove slot q.head)
            else popLoop fuel rest

/-- The first member is taken out. -/
def pop : Option Nat × LinkedQueue := popLoop slot (q.next.length + 1) q

end LinkedQueue

/-! ### Room -/

section Room

variable {α : Type}

theorem length_resized (xs : List α) (n : Nat) (x : α) : (resized xs n x).length = n := by
  rw [resized, List.length_append, List.length_take, List.length_replicate]
  omega

theorem resized_of_length {xs : List α} {n : Nat} (h : xs.length = n) (x : α) :
    resized xs n x = xs := by
  rw [resized, List.take_of_length_le (Nat.le_of_eq h), h, Nat.sub_self, List.replicate_zero,
    List.append_nil]

theorem resized_nil (n : Nat) (x : α) : resized [] n x = List.replicate n x := by
  rw [resized, List.take_nil, List.nil_append, List.length_nil, Nat.sub_zero]

end Room

/-! ### Links -/

/-- The links lead from the first member over all the others to the end. -/
inductive Links (slot : Nat → Nat) (next : List Nat) : Nat → List Nat → Prop
  | nil : Links slot next 0 []
  | cons {a following : Nat} {rest : List Nat} (hpos : a ≠ 0)
      (hnext : next[slot a]? = some following) (hrest : Links slot next following rest) :
      Links slot next a (a :: rest)

namespace Links

variable {slot : Nat → Nat} {next next' : List Nat} {first a : Nat} {ids rest : List Nat}

theorem first_eq (h : Links slot next first ids) : first = ids.head?.getD 0 := by
  cases h with
  | nil => rfl
  | cons => rfl

theorem ne_zero (h : Links slot next first ids) (ha : a ∈ ids) : a ≠ 0 := by
  induction h with
  | nil => cases ha
  | cons hpos _ _ ih =>
      rcases List.mem_cons.mp ha with rfl | hrest
      · exact hpos
      · exact ih hrest

theorem slot_lt (h : Links slot next first ids) (ha : a ∈ ids) : slot a < next.length := by
  induction h with
  | nil => cases ha
  | cons _ hnext _ ih =>
      rcases List.mem_cons.mp ha with rfl | hrest
      · exact (List.getElem?_eq_some_iff.mp hnext).1
      · exact ih hrest

/-- Only the slots of the members matter. -/
theorem congr (h : Links slot next first ids)
    (hsame : ∀ b ∈ ids, next'[slot b]? = next[slot b]?) : Links slot next' first ids := by
  induction h with
  | nil => exact nil
  | cons hpos hnext _ ih =>
      refine cons hpos ?_ (ih fun b hb => hsame b (List.mem_cons_of_mem _ hb))
      rw [hsame _ (List.mem_cons_self ..)]
      exact hnext

theorem set_of_notMem (h : Links slot next first ids) {j : Nat} (hj : j ∉ ids.map slot) (x : Nat) :
    Links slot (next.set j x) first ids := by
  apply h.congr
  intro b hb
  rw [List.getElem?_set_ne]
  rintro rfl
  exact hj (List.mem_map_of_mem hb)

/-- The link of the last member of a beginning is led elsewhere. -/
theorem redirect {before others : List Nat} {p following : Nat}
    (h : Links slot next first (before ++ p :: rest)) (hnodup : ((before ++ [p]).map slot).Nodup)
    (hsame : ∀ b ∈ before, next'[slot b]? = next[slot b]?)
    (hnext : next'[slot p]? = some following) (hothers : Links slot next' following others) :
    Links slot next' first (before ++ p :: others) := by
  induction before generalizing first with
  | nil =>
      cases h with
      | cons hpos _ _ => exact cons hpos hnext hothers
  | cons b before ih =>
      cases h with
      | cons hpos hold hrest =>
          rw [List.cons_append, List.map_cons, List.nodup_cons] at hnodup
          refine cons hpos ?_ (ih hrest hnodup.2 fun c hc => hsame c (List.mem_cons_of_mem _ hc))
          rw [hsame b (List.mem_cons_self ..)]
          exact hold

/-- What follows the first member. -/
theorem uncons (h : Links slot next first (a :: rest)) :
    ∃ following, next[slot a]? = some following ∧ Links slot next following rest := by
  cases h with
  | cons _ hnext hrest => exact ⟨_, hnext, hrest⟩

/-- What follows a member. -/
theorem after {before : List Nat} (h : Links slot next first (before ++ a :: rest)) :
    ∃ following, next[slot a]? = some following ∧ Links slot next following rest := by
  induction before generalizing first with
  | nil => exact h.uncons
  | cons b before ih =>
      cases h with
      | cons _ _ hrest => exact ih hrest

/-- No more members than slots. -/
theorem length_le (h : Links slot next first ids) (hnodup : (ids.map slot).Nodup) :
    ids.length ≤ next.length := by
  have hsub : ids.map slot ⊆ List.range next.length := by
    intro j hj
    obtain ⟨b, hb, rfl⟩ := List.mem_map.mp hj
    exact List.mem_range.mpr (h.slot_lt hb)
  have hle := (hnodup.subperm hsub).length_le
  rwa [List.length_map, List.length_range] at hle

end Links

/-! ### The members -/

/-- The members of the queue are `ids`. -/
structure Queued (slot : Nat → Nat) (q : LinkedQueue) (ids : List Nat) : Prop where
  links : Links slot q.next q.head ids
  tail_eq : q.tail = ids.getLast?.getD 0
  count_eq : q.count = ids.length
  sizes : q.waiting.length = q.next.length
  active_iff : ∀ j, q.waiting[j]? = some true ↔ j ∈ ids.map slot
  nodup : (ids.map slot).Nodup

namespace Queued

open LinkedQueue

variable {slot : Nat → Nat} {q : LinkedQueue} {ids before rest : List Nat} {a : Nat}

theorem empty (slot : Nat → Nat) : Queued slot {} [] where
  links := Links.nil
  tail_eq := rfl
  count_eq := rfl
  sizes := rfl
  active_iff := fun j => by simp
  nodup := List.nodup_nil

theorem active_eq (h : Queued slot q ids) (a : Nat) :
    q.active slot a = true ↔ slot a ∈ ids.map slot := by
  rw [← h.active_iff, active]
  rcases hmark : q.waiting[slot a]? with - | mark
  · simp
  · rw [Option.getD_some, Option.some.injEq]

/-- Room is made only where there was none. -/
theorem ensure (h : Queued slot q ids) {size : Nat} (hsize : q.next.length = 0 ∨ q.next.length = size) :
    Queued slot (q.ensure size) ids ∧ (q.ensure size).next.length = size := by
  rcases hsize with hzero | hsize
  · have hnext := List.eq_nil_of_length_eq_zero hzero
    have hwaiting := List.eq_nil_of_length_eq_zero (h.sizes.trans hzero)
    have hids : ids = [] := by
      apply List.eq_nil_of_length_eq_zero
      have := h.links.length_le h.nodup
      omega
    subst hids
    refine ⟨⟨?_, h.tail_eq, h.count_eq, ?_, ?_, List.nodup_nil⟩, length_resized _ _ _⟩
    · have hhead : q.head = 0 := h.links.first_eq
      dsimp only [LinkedQueue.ensure]
      rw [hhead]
      exact Links.nil
    · exact (length_resized _ _ _).trans (length_resized _ _ _).symm
    · intro j
      rw [LinkedQueue.ensure, hwaiting]
      dsimp only
      rw [resized_nil, List.getElem?_replicate]
      simp
  · have hsame : q.ensure size = q := by
      rw [LinkedQueue.ensure, resized_of_length hsize, resized_of_length (h.sizes.trans hsize)]
    rw [hsame]
    exact ⟨h, hsize⟩

theorem ids_nodup (h : Queued slot q ids) : ids.Nodup := h.nodup.of_map

theorem slot_notMem (h : Queued slot q (before ++ a :: rest)) :
    slot a ∉ (before ++ rest).map slot := by
  have hnodup := h.nodup
  rw [List.map_append, List.map_cons] at hnodup
  rw [List.map_append]
  exact (List.nodup_middle.mp hnodup).notMem

/-! ### A new last member -/

theorem push (h : Queued slot q ids) (hpos : a ≠ 0) (hroom : slot a < q.next.length)
    (hfresh : slot a ∉ ids.map slot) :
    ∃ q', q.push slot a = some q' ∧ Queued slot q' (ids ++ [a]) ∧
      q'.next.length = q.next.length := by
  have hactive : ¬ q.active slot a = true := fun hmark => hfresh ((h.active_eq a).mp hmark)
  have htail := h.tail_eq
  rw [LinkedQueue.push, if_neg (by rw [h.sizes]; omega), if_neg hactive]
  refine ⟨_, rfl, ⟨?_, ?_, ?_, ?_, ?_, ?_⟩, ?_⟩
  · dsimp only
    rcases List.eq_nil_or_concat ids with rfl | ⟨front, last, rfl⟩
    · -- the queue was empty
      have hzero : q.tail = 0 := htail
      rw [if_neg (not_not_intro hzero), if_neg (not_not_intro hzero)]
      exact Links.cons hpos (List.getElem?_set_self hroom) Links.nil
    · have hlast : q.tail = last := by
        rw [htail, List.concat_eq_append, List.getLast?_concat, Option.getD_some]
      have hmem : last ∈ front.concat last := by
        rw [List.concat_eq_append]
        exact List.mem_append_right _ (List.mem_singleton_self last)
      have hne : q.tail ≠ 0 := hlast ▸ h.links.ne_zero hmem
      have hapart : slot last ≠ slot a := fun heq => hfresh (heq ▸ List.mem_map_of_mem hmem)
      have hnodup := h.nodup
      have hlinks := h.links
      rw [List.concat_eq_append] at hnodup hlinks hfresh ⊢
      rw [if_pos hne, if_pos hne, hlast, List.append_assoc]
      apply hlinks.redirect hnodup
      · intro b hb
        rw [List.getElem?_set_ne, List.getElem?_set_ne]
        · rintro heq
          exact hfresh (heq ▸ List.mem_map_of_mem (List.mem_append_left _ hb))
        · intro heq
          rw [List.map_append, List.map_singleton, List.nodup_append] at hnodup
          exact hnodup.2.2 (slot b) (List.mem_map_of_mem hb) (slot last)
            (List.mem_singleton_self _) heq.symm
      · apply List.getElem?_set_self
        rw [List.length_set]
        exact h.links.slot_lt hmem
      · refine Links.cons hpos ?_ Links.nil
        rw [List.getElem?_set_ne hapart]
        exact List.getElem?_set_self hroom
  · rw [List.getLast?_concat, Option.getD_some]
  · rw [h.count_eq, List.length_append, List.length_singleton]
  · dsimp only
    rw [List.length_set]
    split
    · rw [List.length_set, List.length_set, h.sizes]
    · rw [List.length_set, h.sizes]
  · intro j
    rw [List.map_append, List.map_singleton, List.mem_append, List.mem_singleton]
    by_cases hj : slot a = j
    · subst hj
      rw [List.getElem?_set_self (by rw [h.sizes]; exact hroom)]
      simp
    · rw [List.getElem?_set_ne hj, h.active_iff]
      exact ⟨Or.inl, fun hor => hor.resolve_right fun heq => hj heq.symm⟩
  · rw [List.map_append, List.map_singleton, List.nodup_append]
    refine ⟨h.nodup, List.nodup_singleton _, ?_⟩
    intro j hj k hk heq
    rw [List.mem_singleton] at hk
    exact hfresh (hk ▸ heq ▸ hj)
  · dsimp only
    split
    · rw [List.length_set, List.length_set]
    · rw [List.length_set]

/-! ### A member is taken out -/

/-- The walk ends at the member. -/
theorem unlinkLoop_found : ∀ {before : List Nat} {fuel previous current : Nat},
    Links slot q.next current (before ++ a :: rest) → (before ++ a :: rest).Nodup →
    before.length < fuel →
    q.unlinkLoop slot a fuel previous current =
      q.cut slot a (before.getLast?.getD previous) (rest.head?.getD 0) := by
  intro before
  induction before with
  | nil =>
      intro fuel previous current hlinks hnodup hfuel
      obtain ⟨fuel, rfl⟩ := Nat.exists_eq_succ_of_ne_zero (Nat.ne_of_gt hfuel)
      cases hlinks with
      | @cons _ following _ hpos hnext hrest =>
          have hfirst := hrest.first_eq
          rw [unlinkLoop, if_neg hpos, hnext]
          dsimp only
          rw [if_pos rfl]
          -- no member follows itself
          have hself : following ≠ a := by
            rintro rfl
            have hmem : following ∈ rest := by
              cases rest with
              | nil => exact absurd hfirst hpos
              | cons b rest =>
                  rw [List.head?_cons, Option.getD_some] at hfirst
                  rw [hfirst]
                  exact List.mem_cons_self ..
            exact (List.nodup_cons.mp hnodup).1 hmem
          rw [if_neg hself, hfirst]
          rfl
  | cons b before ih =>
      intro fuel previous current hlinks hnodup hfuel
      obtain ⟨fuel, rfl⟩ := Nat.exists_eq_succ_of_ne_zero (Nat.ne_of_gt (Nat.zero_lt_of_lt hfuel))
      cases hlinks with
      | @cons _ following _ hpos hnext hrest =>
          have hsplit := List.nodup_cons.mp hnodup
          have hself : following ≠ b := by
            rintro rfl
            have hfirst := hrest.first_eq
            have hmem : following ∈ before ++ a :: rest := by
              cases before with
              | nil =>
                  rw [hfirst]
                  exact List.mem_cons_self ..
              | cons c before =>
                  rw [hfirst]
                  exact List.mem_cons_self ..
            exact hsplit.1 hmem
          have hother : b ≠ a := by
            rintro rfl
            exact hsplit.1 (List.mem_append_right _ (List.mem_cons_self ..))
          rw [unlinkLoop, if_neg hpos, hnext]
          dsimp only
          rw [if_neg hself, if_neg hother,
            ih hrest hsplit.2 (Nat.lt_of_succ_lt_succ hfuel), List.getLast?_cons, Option.getD_some]

/-- The walk over others changes nothing. -/
theorem unlinkLoop_absent : ∀ {ids : List Nat} {fuel previous current : Nat},
    Links slot q.next current ids → ids.Nodup → a ∉ ids →
    q.unlinkLoop slot a fuel previous current = q := by
  intro ids
  induction ids with
  | nil =>
      intro fuel previous current hlinks _ _
      cases hlinks
      cases fuel with
      | zero => rfl
      | succ fuel => rw [unlinkLoop, if_pos rfl]
  | cons b ids ih =>
      intro fuel previous current hlinks hnodup hnot
      cases fuel with
      | zero => rfl
      | succ fuel =>
          cases hlinks with
          | @cons _ following _ hpos hnext hrest =>
              have hsplit := List.nodup_cons.mp hnodup
              have hself : following ≠ b := by
                rintro rfl
                have hfirst := hrest.first_eq
                cases ids with
                | nil => exact hpos hfirst
                | cons c ids =>
                    rw [List.head?_cons, Option.getD_some] at hfirst
                    exact hsplit.1 (hfirst ▸ List.mem_cons_self ..)
              have hother : b ≠ a := by
                rintro rfl
                exact hnot (List.mem_cons_self ..)
              rw [unlinkLoop, if_neg hpos, hnext]
              dsimp only
              rw [if_neg hself, if_neg hother]
              exact ih hrest hsplit.2 fun hmem => hnot (List.mem_cons_of_mem _ hmem)

/-- The links that are closed around a member lead over the others. -/
theorem links_cut (h : Queued slot q (before ++ a :: rest)) :
    Links slot (q.cut slot a (before.getLast?.getD 0) (rest.head?.getD 0)).next
      (q.cut slot a (before.getLast?.getD 0) (rest.head?.getD 0)).head (before ++ rest) := by
  obtain ⟨following, hnext, hrest⟩ := h.links.after
  have hfirst := hrest.first_eq
  have hapart := h.slot_notMem
  subst hfirst
  dsimp only [cut]
  rcases List.eq_nil_or_concat before with rfl | ⟨front, last, rfl⟩
  · rw [List.getLast?_nil, Option.getD_none, if_neg (not_not_intro rfl),
      if_neg (not_not_intro rfl), List.nil_append]
    exact hrest.set_of_notMem hapart 0
  · rw [List.concat_eq_append] at h hapart ⊢
    have hmem : last ∈ (front ++ [last]) ++ a :: rest :=
      List.mem_append_left _ (List.mem_append_right _ (List.mem_singleton_self last))
    have hne : last ≠ 0 := h.links.ne_zero hmem
    have hnodup := h.nodup
    rw [List.map_append] at hnodup
    have hfront := (List.nodup_append.mp hnodup).1
    have hlinks := h.links
    rw [List.append_assoc] at hlinks
    have hslot : slot last ∉ rest.map slot := by
      intro hin
      obtain ⟨-, -, hdisjoint⟩ := List.nodup_append.mp hnodup
      refine hdisjoint (slot last) ?_ (slot last) ?_ rfl
      · exact List.mem_map_of_mem (List.mem_append_right _ (List.mem_singleton_self last))
      · rw [List.map_cons]
        exact List.mem_cons_of_mem _ hin
    have hother : ∀ b ∈ front ++ [last] ++ rest, slot a ≠ slot b :=
      fun b hb heq => hapart (heq ▸ List.mem_map_of_mem hb)
    rw [List.getLast?_concat, Option.getD_some, if_pos hne, if_pos hne, List.append_assoc]
    apply hlinks.redirect hfront
    · intro b hb
      rw [List.getElem?_set_ne, List.getElem?_set_ne]
      · intro heq
        rw [List.map_append, List.map_singleton, List.nodup_append] at hfront
        exact hfront.2.2 (slot b) (List.mem_map_of_mem hb) (slot last)
          (List.mem_singleton_self _) heq.symm
      · exact hother b (List.mem_append_left _ (List.mem_append_left _ hb))
    · rw [List.getElem?_set_ne (hother last (List.mem_append_left _
        (List.mem_append_right _ (List.mem_singleton_self last))))]
      exact List.getElem?_set_self (h.links.slot_lt hmem)
    · apply (hrest.set_of_notMem hslot _).set_of_notMem
      intro hin
      exact hapart (by
        rw [List.map_append]
        exact List.mem_append_right _ hin)

/-- The end of the queue without a member. -/
theorem tail_cut (h : Queued slot q (before ++ a :: rest)) :
    (q.cut slot a (before.getLast?.getD 0) (rest.head?.getD 0)).tail =
      (before ++ rest).getLast?.getD 0 := by
  have htail := h.tail_eq
  dsimp only [cut]
  rcases List.eq_nil_or_concat rest with rfl | ⟨front, last, rfl⟩
  · rw [List.getLast?_concat, Option.getD_some] at htail
    rw [if_pos htail, List.append_nil]
  · rw [List.concat_eq_append] at h htail ⊢
    rw [← List.cons_append, ← List.append_assoc, List.getLast?_concat, Option.getD_some] at htail
    have hother : q.tail ≠ a := by
      rintro rfl
      have hnot := (List.nodup_middle.mp h.ids_nodup).notMem
      exact hnot (List.mem_append_right _ (List.mem_append_right _
        (htail ▸ List.mem_singleton_self _)))
    rw [if_neg hother, htail, ← List.append_assoc, List.getLast?_concat, Option.getD_some]

theorem length_cut (q : LinkedQueue) (slot : Nat → Nat) (a previous following : Nat) :
    (q.cut slot a previous following).next.length = q.next.length := by
  dsimp only [cut]
  rw [List.length_set]
  split
  · rw [List.length_set]
  · rfl

/-- The marks of the queue without a member. -/
theorem active_without (h : Queued slot q (before ++ a :: rest)) (j : Nat) :
    (q.waiting.set (slot a) false)[j]? = some true ↔ j ∈ (before ++ rest).map slot := by
  have hapart := h.slot_notMem
  by_cases hj : slot a = j
  · subst hj
    constructor
    · intro hmark
      by_cases hlt : slot a < q.waiting.length
      · rw [List.getElem?_set_self hlt] at hmark
        cases hmark
      · rw [List.getElem?_eq_none (by rw [List.length_set]; omega)] at hmark
        cases hmark
    · intro hin
      exact absurd hin hapart
  · rw [List.getElem?_set_ne hj, h.active_iff]
    simp only [List.map_append, List.map_cons, List.mem_append, List.mem_cons]
    constructor
    · rintro (hb | heq | hr)
      · exact Or.inl hb
      · exact absurd heq.symm hj
      · exact Or.inr hr
    · rintro (hb | hr)
      · exact Or.inl hb
      · exact Or.inr (Or.inr hr)

/-- A member is taken out of the middle. -/
theorem remove (h : Queued slot q (before ++ a :: rest)) :
    Queued slot (q.remove slot a) (before ++ rest) ∧
      (q.remove slot a).next.length = q.next.length := by
  have hmem : a ∈ before ++ a :: rest := List.mem_append_right _ (List.mem_cons_self ..)
  have hlt := h.links.slot_lt hmem
  have hlength := h.links.length_le h.nodup
  rw [List.length_append, List.length_cons] at hlength
  have hunlink : q.unlink slot a =
      q.cut slot a (before.getLast?.getD 0) (rest.head?.getD 0) := by
    rw [unlink, if_neg (by omega)]
    exact unlinkLoop_found h.links h.ids_nodup (by omega)
  have hactive : q.active slot a = true := (h.active_eq a).mpr (List.mem_map_of_mem hmem)
  rw [LinkedQueue.remove, if_pos hactive, hunlink]
  have hnodup := h.nodup
  rw [List.map_append, List.map_cons] at hnodup
  refine ⟨⟨?_, h.tail_cut, ?_, ?_, h.active_without, ?_⟩, ?_⟩
  · exact h.links_cut.set_of_notMem h.slot_notMem 0
  · show q.count - 1 = _
    rw [h.count_eq, List.length_append, List.length_append, List.length_cons]
    omega
  · show (q.waiting.set (slot a) false).length = (List.set _ _ _).length
    rw [List.length_set, List.length_set, length_cut, h.sizes]
  · rw [List.map_append]
    exact (List.nodup_middle.mp hnodup).of_cons
  · show (List.set _ _ _).length = _
    rw [List.length_set, length_cut]

/-! ### The first member -/

theorem pop_nil (h : Queued slot q []) : q.pop slot = (none, q) := by
  have hhead : q.head = 0 := h.links.first_eq
  rw [LinkedQueue.pop, popLoop, if_pos hhead]

/-- The ends of an empty queue. -/
theorem ends_nil (h : Queued slot q []) : ({ q with head := 0, tail := 0 } : LinkedQueue) = q := by
  have hhead : q.head = 0 := h.links.first_eq
  have htail : q.tail = 0 := h.tail_eq
  cases q
  cases hhead
  cases htail
  rfl

theorem pop_cons (h : Queued slot q (a :: rest)) :
    ∃ q', q.pop slot = (some a, q') ∧ Queued slot q' rest ∧ q'.next.length = q.next.length := by
  have hhead : q.head = a := h.links.first_eq
  have hmem : a ∈ a :: rest := List.mem_cons_self ..
  have hpos := h.links.ne_zero hmem
  have hlt := h.links.slot_lt hmem
  have hactive : q.active slot a = true := (h.active_eq a).mpr (List.mem_map_of_mem hmem)
  have hapart := @slot_notMem slot q [] rest a h
  have hwithout := @active_without slot q [] rest a h
  rw [List.nil_append] at hapart hwithout
  obtain ⟨following, hnext, hrest⟩ := @Links.after slot q.next q.head a rest [] h.links
  have hnodup := List.nodup_cons.mp h.ids_nodup
  have hrest' := hrest.set_of_notMem hapart 0
  have hunlink : (q.advance slot following).unlink slot a = q.advance slot following := by
    rw [unlink]
    split
    · rfl
    · refine unlinkLoop_absent ?_ hnodup.2 hnodup.1
      dsimp only [advance]
      rw [hhead]
      exact hrest'
  have hmark : (q.advance slot following).active slot a = true := hactive
  refine ⟨(q.advance slot following).remove slot a, ?_, ?_, ?_⟩
  · rw [LinkedQueue.pop, popLoop, if_neg (hhead ▸ hpos), hhead, hnext]
    dsimp only
    rw [if_pos hmark]
  · rw [LinkedQueue.remove, if_pos hmark, hunlink]
    dsimp only [advance]
    rw [hhead]
    refine ⟨hrest'.set_of_notMem hapart 0, ?_, ?_, ?_, hwithout, ?_⟩
    · dsimp only
      rw [hrest.first_eq, h.tail_eq]
      cases rest with
      | nil => rfl
      | cons b rest =>
          rw [List.head?_cons, Option.getD_some, if_neg (h.links.ne_zero (by simp)),
            List.getLast?_cons_cons]
    · dsimp only
      rw [h.count_eq, List.length_cons, Nat.add_sub_cancel]
    · dsimp only
      rw [List.length_set, List.length_set, List.length_set, h.sizes]
    · have hall := h.nodup
      rw [List.map_cons] at hall
      exact hall.of_cons
  · rw [LinkedQueue.remove, if_pos hmark, hunlink]
    dsimp only [advance]
    rw [List.length_set, List.length_set]

end Queued

end RunD
