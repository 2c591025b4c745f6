/-
Lists ordered by last use, and what is kept of them within a budget.

Using a name puts it in front of the list (`useFirst`).  What is kept within a
budget is the longest initial part whose sizes fit (`Keeps`): what is dropped was
used before everything that is kept, and one item more would not have fitted.
-/
import Mathlib.Data.List.Basic
import Mathlib.Algebra.Order.BigOperators.Group.List
import Mathlib.Algebra.Order.Group.Nat
import Mathlib.Algebra.Order.Ring.Nat

namespace RunD

variable {α : Type}

/-! ### Use -/

section Use

variable [DecidableEq α]

/-- A name is used: it comes to the front. -/
def useFirst (name : α) (names : List α) : List α := name :: names.erase name

/-- A list that is ordered like the names stays so when a name is used in both. -/
theorem sublist_useFirst (name : α) {part names : List α} (h : part.Sublist names) :
    (useFirst name part).Sublist (useFirst name names) :=
  (h.erase name).cons_cons name

/-- A name that is used elsewhere only falls back. -/
theorem sublist_useFirst_of_notMem {name : α} {part names : List α} (h : part.Sublist names)
    (hnot : name ∉ part) : part.Sublist (useFirst name names) := by
  have herase := h.erase name
  rw [List.erase_of_not_mem hnot] at herase
  exact herase.cons name

end Use

/-! ### Budgets -/

/-- The sizes of the items together. -/
def total (size : α → Nat) (items : List α) : Nat := (items.map size).sum

section Budget

variable {size : α → Nat}

@[simp] theorem total_nil : total size [] = 0 := rfl

@[simp] theorem total_cons (item : α) (items : List α) :
    total size (item :: items) = size item + total size items := by
  rw [total, List.map_cons, List.sum_cons]
  rfl

@[simp] theorem total_append (items more : List α) :
    total size (items ++ more) = total size items + total size more := by
  rw [total, List.map_append, List.sum_append]
  rfl

theorem total_perm {items others : List α} (h : items.Perm others) :
    total size items = total size others :=
  (h.map size).sum_eq

theorem size_le_total {item : α} {items : List α} (h : item ∈ items) :
    size item ≤ total size items :=
  List.le_sum_of_mem (List.mem_map_of_mem h)

/-- `kept` is the longest initial part of the items that fits. -/
structure Keeps (size : α → Nat) (budget : Nat) (items kept : List α) : Prop where
  prefix_of : kept <+: items
  fits : total size kept ≤ budget
  longest : ∀ more, more <+: items → kept.length < more.length → budget < total size more

/-- What fits is kept. -/
theorem Keeps.all {budget : Nat} {items : List α} (h : total size items ≤ budget) :
    Keeps size budget items items := by
  refine ⟨List.prefix_rfl, h, ?_⟩
  intro more hmore hlt
  exact absurd hmore.length_le (Nat.not_le.mpr hlt)

/-- When the items do not fit, the last one is not kept. -/
theorem Keeps.dropLast {budget : Nat} {items kept : List α} {last : α}
    (h : Keeps size budget items kept) (hover : budget < total size (items ++ [last])) :
    Keeps size budget (items ++ [last]) kept := by
  refine ⟨h.prefix_of.trans (List.prefix_append items [last]), h.fits, ?_⟩
  intro more hmore hlt
  rcases List.prefix_concat_iff.mp hmore with heq | hshort
  · rw [heq]
    exact hover
  · exact h.longest more hshort hlt

/-- Keeping is about the sizes only. -/
theorem Keeps.map {β : Type} {f : β → α} {budget : Nat} {items kept : List β}
    (h : Keeps (fun item => size (f item)) budget items kept) :
    Keeps size budget (items.map f) (kept.map f) := by
  have htotal : ∀ part : List β,
      total size (part.map f) = total (fun item => size (f item)) part := by
    intro part
    rw [total, total, List.map_map]
    rfl
  refine ⟨h.prefix_of.map f, ?_, ?_⟩
  · rw [htotal]
    exact h.fits
  · intro more hmore hlt
    obtain ⟨n, rfl⟩ : ∃ n, more = (items.take n).map f := by
      refine ⟨more.length, ?_⟩
      rw [List.map_take]
      exact List.prefix_iff_eq_take.mp hmore
    rw [htotal]
    apply h.longest _ (List.take_prefix n items)
    rwa [List.length_map, List.length_map] at hlt

end Budget

end RunD
