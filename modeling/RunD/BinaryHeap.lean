/-
The heap algorithms of the standard library on a list.

The comparison says which of two items comes out after the other; it goes by a
rank in a linear order.  Pushing raises the last item of the list, popping brings
the first item to the end and sinks the one that took its place, making pushes
the items one after the other.  Each is a permutation and leaves a heap
(`pushHeap_spec`, `popHeap_spec`, `makeHeap_spec`), and the first item of a heap
has the least rank (`first_rank_le`).
-/
import Mathlib.Order.WithBot
import Mathlib.Data.List.Induction
import Mathlib.Data.List.Perm.Basic
import RunD.MinHeap

namespace RunD

variable {α κ : Type} [LinearOrder κ]

/-! ### The algorithms -/

section Algorithms

variable (after : α → α → Bool)

/-- Two places are exchanged. -/
def exchange (items : List α) (i j : Nat) (first second : α) : List α :=
  (items.set i second).set j first

/-- The item at a place is raised while its parent comes out after it. -/
def siftUp : Nat → Nat → List α → List α
  | 0, _, items => items
  | turns + 1, place, items =>
      if place = 0 then items
      else
        match items[(place - 1) / 2]?, items[place]? with
        | some parent, some child =>
            if after parent child then
              siftUp turns ((place - 1) / 2) (exchange items ((place - 1) / 2) place parent child)
            else items
        | _, _ => items

/-- The child of a place that comes out first. -/
def firstChild (items : List α) (place : Nat) : Nat :=
  match items[2 * place + 1]?, items[2 * place + 2]? with
  | some left, some right => if after left right then 2 * place + 2 else 2 * place + 1
  | _, _ => 2 * place + 1

/-- The item at a place is sunk while it comes out after a child. -/
def siftDown : Nat → Nat → List α → List α
  | 0, _, items => items
  | turns + 1, place, items =>
      match items[place]?, items[firstChild after items place]? with
      | some item, some child =>
          if after item child then
            siftDown turns (firstChild after items place)
              (exchange items place (firstChild after items place) item child)
          else items
      | _, _ => items

/-- `std::push_heap`. -/
def pushHeap (items : List α) : List α := siftUp after items.length (items.length - 1) items

/-- `std::pop_heap`. -/
def popHeap : List α → List α
  | [] => []
  | first :: rest =>
      match rest.getLast? with
      | none => [first]
      | some last => siftDown after rest.length 0 (last :: rest.dropLast) ++ [first]

/-- `std::make_heap`. -/
def makeHeap (items : List α) : List α :=
  items.foldl (fun heap item => pushHeap after (heap ++ [item])) []

end Algorithms

/-! ### Ranks -/

/-- The rank of the item at a place; there is nothing behind the items. -/
def rankAt (rank : α → κ) (items : List α) (place : Nat) : WithTop κ :=
  match items[place]? with
  | some item => (rank item : WithTop κ)
  | none => ⊤

/-- A list whose items are a heap. -/
def Heaped (rank : α → κ) (items : List α) : Prop := IsHeap (rankAt rank items) items.length

section Exchange

variable {rank : α → κ} {items : List α} {i j : Nat} {first second : α}

omit [LinearOrder κ] in
theorem rankAt_of_getElem? {place : Nat} {item : α} (h : items[place]? = some item) :
    rankAt rank items place = (rank item : WithTop κ) := by
  rw [rankAt, h]

theorem exchange_length : (exchange items i j first second).length = items.length := by
  rw [exchange, List.length_set, List.length_set]

theorem exchange_perm (hi : items[i]? = some first) (hj : items[j]? = some second) :
    (exchange items i j first second).Perm items := by
  obtain ⟨hlt, rfl⟩ := List.getElem?_eq_some_iff.mp hi
  obtain ⟨hlt', rfl⟩ := List.getElem?_eq_some_iff.mp hj
  exact List.set_set_perm hlt hlt'

omit [LinearOrder κ] in
theorem rankAt_exchange (hne : i ≠ j) (hi : items[i]? = some first) (hj : items[j]? = some second) :
    rankAt rank (exchange items i j first second) i = rankAt rank items j ∧
      rankAt rank (exchange items i j first second) j = rankAt rank items i ∧
      ∀ place, place ≠ i → place ≠ j →
        rankAt rank (exchange items i j first second) place = rankAt rank items place := by
  have hlt := (List.getElem?_eq_some_iff.mp hi).1
  have hlt' := (List.getElem?_eq_some_iff.mp hj).1
  refine ⟨?_, ?_, ?_⟩
  · have hget : (exchange items i j first second)[i]? = some second := by
      rw [exchange, List.getElem?_set_ne (Ne.symm hne), List.getElem?_set_self hlt]
    rw [rankAt_of_getElem? hget, rankAt_of_getElem? hj]
  · have hget : (exchange items i j first second)[j]? = some first := by
      rw [exchange, List.getElem?_set_self (by rw [List.length_set]; exact hlt')]
    rw [rankAt_of_getElem? hget, rankAt_of_getElem? hi]
  · intro place hpi hpj
    rw [rankAt, rankAt, exchange, List.getElem?_set_ne (Ne.symm hpj),
      List.getElem?_set_ne (Ne.symm hpi)]

end Exchange

/-- The first item of a heap has the least rank. -/
theorem first_rank_le {rank : α → κ} {first : α} {rest : List α}
    (h : Heaped rank (first :: rest)) {item : α} (hmem : item ∈ first :: rest) :
    rank first ≤ rank item := by
  obtain ⟨place, hlt, rfl⟩ := List.mem_iff_getElem.mp hmem
  have hle := h.first_le hlt
  rw [rankAt_of_getElem? (List.getElem?_eq_getElem hlt),
    rankAt_of_getElem? (show (first :: rest)[0]? = some first from rfl)] at hle
  exact WithTop.coe_le_coe.mp hle

/-! ### The algorithms leave heaps -/

section Heaps

variable {after : α → α → Bool} {rank : α → κ}

/-- The comparison goes by the rank. -/
def ByRank (after : α → α → Bool) (rank : α → κ) : Prop :=
  ∀ first second, after first second = true ↔ rank second < rank first

theorem siftUp_spec (hrank : ByRank after rank) {turns place : Nat} {items : List α}
    (hturns : place ≤ turns) (hplace : place < items.length)
    (h : HeapRising (rankAt rank items) items.length place) :
    (siftUp after turns place items).Perm items ∧ Heaped rank (siftUp after turns place items) := by
  induction turns generalizing place items with
  | zero =>
      refine ⟨List.Perm.refl items, h.close ?_⟩
      intro hpos
      omega
  | succ turns ih =>
      rw [siftUp]
      by_cases hroot : place = 0
      · rw [if_pos hroot]
        refine ⟨List.Perm.refl items, h.close ?_⟩
        intro hpos
        omega
      · have hparent : items[(place - 1) / 2]? = some items[(place - 1) / 2] :=
          List.getElem?_eq_getElem (by omega)
        have hchild : items[place]? = some items[place] := List.getElem?_eq_getElem hplace
        rw [if_neg hroot, hparent, hchild]
        dsimp only
        by_cases hafter : after items[(place - 1) / 2] items[place] = true
        · have hless := (hrank _ _).mp hafter
          obtain ⟨hfirst, hsecond, hother⟩ :=
            @rankAt_exchange _ _ rank items _ _ _ _ (by omega) hparent hchild
          have hrising : HeapRising (rankAt rank (exchange items ((place - 1) / 2) place
              items[(place - 1) / 2] items[place])) items.length ((place - 1) / 2) := by
            refine h.rise (by omega) hplace ?_ hsecond hfirst fun i h1 h2 => hother i h2 h1
            rw [rankAt_of_getElem? hparent, rankAt_of_getElem? hchild]
            exact WithTop.coe_le_coe.mpr (le_of_lt hless)
          rw [if_pos hafter]
          have hlength := @exchange_length _ items ((place - 1) / 2) place
            items[(place - 1) / 2] items[place]
          obtain ⟨hperm, hheap⟩ := @ih ((place - 1) / 2) _ (by omega) (by rw [hlength]; omega)
            (by rw [hlength]; exact hrising)
          exact ⟨hperm.trans (exchange_perm hparent hchild), hheap⟩
        · rw [if_neg hafter]
          refine ⟨List.Perm.refl items, h.close fun _ _ => ?_⟩
          rw [rankAt_of_getElem? hparent, rankAt_of_getElem? hchild]
          exact WithTop.coe_le_coe.mpr (not_lt.mp fun hlt => hafter ((hrank _ _).mpr hlt))

/-- **Pushing an item leaves a heap.** -/
theorem pushHeap_spec (hrank : ByRank after rank) {items : List α} (h : Heaped rank items)
    (item : α) :
    (pushHeap after (items ++ [item])).Perm (items ++ [item]) ∧
      Heaped rank (pushHeap after (items ++ [item])) := by
  have hlength : (items ++ [item]).length = items.length + 1 := by
    rw [List.length_append, List.length_singleton]
  rw [pushHeap, hlength, Nat.add_sub_cancel]
  apply siftUp_spec hrank (Nat.le_succ _) (by omega)
  rw [hlength]
  refine h.append fun place hlt => ?_
  rw [rankAt, rankAt, List.getElem?_append_left hlt]

/-- The child that comes out first has the lesser rank of the two. -/
theorem firstChild_spec (hrank : ByRank after rank) {items : List α} {place : Nat}
    (hlt : 2 * place + 1 < items.length) :
    firstChild after items place < items.length ∧
      (firstChild after items place - 1) / 2 = place ∧ 0 < firstChild after items place ∧
      ∀ i, 0 < i → i < items.length → (i - 1) / 2 = place →
        rankAt rank items (firstChild after items place) ≤ rankAt rank items i := by
  have hleft : items[2 * place + 1]? = some items[2 * place + 1] := List.getElem?_eq_getElem hlt
  rw [firstChild, hleft]
  by_cases hboth : 2 * place + 2 < items.length
  · have hright : items[2 * place + 2]? = some items[2 * place + 2] :=
      List.getElem?_eq_getElem hboth
    rw [hright]
    dsimp only
    by_cases hafter : after items[2 * place + 1] items[2 * place + 2] = true
    · rw [if_pos hafter]
      refine ⟨hboth, by omega, by omega, ?_⟩
      intro i hpos hi hparent
      rcases show i = 2 * place + 1 ∨ i = 2 * place + 2 by omega with rfl | rfl
      · rw [rankAt_of_getElem? hleft, rankAt_of_getElem? hright]
        exact WithTop.coe_le_coe.mpr (le_of_lt ((hrank _ _).mp hafter))
      · exact le_refl _
    · rw [if_neg hafter]
      refine ⟨hlt, by omega, by omega, ?_⟩
      intro i hpos hi hparent
      rcases show i = 2 * place + 1 ∨ i = 2 * place + 2 by omega with rfl | rfl
      · exact le_refl _
      · rw [rankAt_of_getElem? hleft, rankAt_of_getElem? hright]
        exact WithTop.coe_le_coe.mpr (not_lt.mp fun hless => hafter ((hrank _ _).mpr hless))
  · rw [List.getElem?_eq_none (by omega)]
    dsimp only
    refine ⟨hlt, by omega, by omega, ?_⟩
    intro i hpos hi hparent
    obtain rfl : i = 2 * place + 1 := by omega
    exact le_refl _

theorem siftDown_spec (hrank : ByRank after rank) {turns place : Nat} {items : List α}
    (hturns : items.length ≤ place + turns)
    (h : HeapExcept (rankAt rank items) items.length place) :
    (siftDown after turns place items).Perm items ∧
      Heaped rank (siftDown after turns place items) := by
  induction turns generalizing place items with
  | zero =>
      refine ⟨List.Perm.refl items, h.close ?_⟩
      intro i hpos hi hparent
      omega
  | succ turns ih =>
      rw [siftDown]
      by_cases hleaf : 2 * place + 1 < items.length
      · obtain ⟨hin, hparent, hpos, hleast⟩ := firstChild_spec hrank hleaf
        have hitem : items[place]? = some items[place] := List.getElem?_eq_getElem (by omega)
        have hchild : items[firstChild after items place]? =
            some items[firstChild after items place] := List.getElem?_eq_getElem hin
        rw [hitem, hchild]
        dsimp only
        by_cases hafter : after items[place] items[firstChild after items place] = true
        · have hless := (hrank _ _).mp hafter
          obtain ⟨hfirst, hsecond, hother⟩ :=
            @rankAt_exchange _ _ rank items _ _ _ _ (by omega) hitem hchild
          have hlength := @exchange_length _ items place (firstChild after items place)
            items[place] items[firstChild after items place]
          have hhole : HeapExcept (rankAt rank (exchange items place (firstChild after items place)
              items[place] items[firstChild after items place])) items.length
              (firstChild after items place) := by
            refine h.sink hpos hin hparent hleast ?_ hfirst hsecond fun i h1 h2 => hother i h1 h2
            rw [rankAt_of_getElem? hitem, rankAt_of_getElem? hchild]
            exact WithTop.coe_le_coe.mpr (le_of_lt hless)
          rw [if_pos hafter]
          obtain ⟨hperm, hheap⟩ := @ih (firstChild after items place) _
            (by rw [hlength]; omega) (by rw [hlength]; exact hhole)
          exact ⟨hperm.trans (exchange_perm hitem hchild), hheap⟩
        · rw [if_neg hafter]
          refine ⟨List.Perm.refl items, h.close fun i hi hlt hp => le_trans ?_ (hleast i hi hlt hp)⟩
          rw [rankAt_of_getElem? hitem, rankAt_of_getElem? hchild]
          exact WithTop.coe_le_coe.mpr (not_lt.mp fun hlt => hafter ((hrank _ _).mpr hlt))
      · -- a place without children
        have hnone : items[firstChild after items place]? = none := by
          apply List.getElem?_eq_none
          rw [firstChild, List.getElem?_eq_none (by omega)]
          dsimp only
          omega
        have hclosed : Heaped rank items := h.close fun i hi hlt hp => by omega
        rw [hnone]
        cases items[place]? with
        | none => exact ⟨List.Perm.refl items, hclosed⟩
        | some item => exact ⟨List.Perm.refl items, hclosed⟩

/-- **Popping brings the first item to the end and leaves a heap before it.** -/
theorem popHeap_spec (hrank : ByRank after rank) {first : α} {rest : List α}
    (h : Heaped rank (first :: rest)) :
    ∃ heap, popHeap after (first :: rest) = heap ++ [first] ∧ heap.Perm rest ∧
      Heaped rank heap := by
  rcases List.eq_nil_or_concat rest with rfl | ⟨init, last, hsplit⟩
  · refine ⟨[], rfl, List.Perm.refl [], ?_⟩
    intro i _ hi
    exact absurd hi (Nat.not_lt_zero i)
  · rw [List.concat_eq_append] at hsplit
    subst hsplit
    have hlast : (init ++ [last]).getLast? = some last := by
      rw [List.getLast?_append, List.getLast?_singleton]
      rfl
    rw [popHeap, hlast]
    dsimp only
    rw [List.dropLast_concat, List.length_append, List.length_singleton]
    have hbefore : IsHeap (rankAt rank (first :: (init ++ [last]))) (init.length + 1) := by
      intro i hpos hi
      refine h i hpos ?_
      rw [List.length_cons, List.length_append]
      omega
    have hhole : HeapExcept (rankAt rank (last :: init)) (init.length + 1) 0 := by
      refine hbefore.raise_first fun i hpos hi => ?_
      obtain ⟨k, rfl⟩ := Nat.exists_eq_succ_of_ne_zero (Nat.pos_iff_ne_zero.mp hpos)
      rw [rankAt, rankAt, List.getElem?_cons_succ, List.getElem?_cons_succ,
        List.getElem?_append_left (by omega)]
    obtain ⟨hperm, hheap⟩ := @siftDown_spec _ _ _ _ _ hrank (init.length + 1) 0 (last :: init)
      (by rw [List.length_cons]; omega) hhole
    refine ⟨_, rfl, hperm.trans ?_, hheap⟩
    exact (List.perm_append_singleton last init).symm

/-- **Making a heap.** -/
theorem makeHeap_spec (hrank : ByRank after rank) (items : List α) :
    (makeHeap after items).Perm items ∧ Heaped rank (makeHeap after items) := by
  induction items using List.reverseRecOn with
  | nil =>
      refine ⟨List.Perm.refl [], ?_⟩
      intro i _ hi
      exact absurd hi (Nat.not_lt_zero i)
  | append_singleton items item ih =>
      have hstep : makeHeap after (items ++ [item]) =
          pushHeap after (makeHeap after items ++ [item]) := by
        rw [makeHeap, List.foldl_append]
        rfl
      obtain ⟨hperm, hheap⟩ := pushHeap_spec hrank ih.2 item
      rw [hstep]
      exact ⟨hperm.trans (ih.1.append_right [item]), hheap⟩

end Heaps

end RunD
