/-
Memory as a C++ program hands it around: growable vectors with a capacity, and
caller-supplied views of an array by pointer and count.

A `Vec` carries the fact that its items fit its capacity, and an `ArrayView`
the fact that a non-null pointer stands for exactly `count` readable items, so
neither can be built wrong.
-/
import RunD.Checked
import Mathlib.Algebra.Order.Ring.Nat

namespace RunD

variable {α β ε : Type}

/-! ### Vectors -/

/-- A `std::vector`: its items and the capacity reserved for them. -/
structure Vec (α : Type) where
  items : List α
  capacity : Nat
  fits : items.length ≤ capacity

namespace Vec

/-- A fresh vector. -/
def empty : Vec α := ⟨[], 0, le_refl _⟩

/-- `v.reserve(n)`. -/
def reserve (v : Vec α) (n : Nat) : Vec α :=
  ⟨v.items, max v.capacity n, v.fits.trans (le_max_left _ _)⟩

/-- `v.clear()`. -/
def clear (v : Vec α) : Vec α := ⟨[], v.capacity, Nat.zero_le _⟩

/-- Make `items` the contents, growing the capacity only when it has to. -/
def replace (v : Vec α) (items : List α) : Vec α :=
  ⟨items, max v.capacity items.length, le_max_right _ _⟩

/-- `v.resize(n)` with `fill` as the value of new items. -/
def resize (v : Vec α) (n : Nat) (fill : α) : Vec α :=
  v.replace (v.items.take n ++ List.replicate (n - v.items.length) fill)

/-- `v.push_back(a)`. -/
def pushBack (v : Vec α) (a : α) : Vec α := v.replace (v.items ++ [a])

/-- `v[i] = a`. -/
def assign (v : Vec α) (i : Nat) (a : α) : Checked ε (Vec α) := do
  let items ← RunD.assign v.items i a
  pure (v.replace items)

@[simp] theorem replace_items (v : Vec α) (xs : List α) : (v.replace xs).items = xs := rfl

@[simp] theorem clear_items (v : Vec α) : v.clear.items = [] := rfl

@[simp] theorem reserve_items (v : Vec α) (n : Nat) : (v.reserve n).items = v.items := rfl

@[simp] theorem pushBack_items (v : Vec α) (a : α) : (v.pushBack a).items = v.items ++ [a] := rfl

theorem resize_length (v : Vec α) (n : Nat) (fill : α) :
    (v.resize n fill).items.length = n := by
  simp only [resize, replace_items, List.length_append, List.length_take, List.length_replicate]
  omega

theorem assign_of_lt {v : Vec α} {i : Nat} {a : α} (h : i < v.items.length) :
    (v.assign i a : Checked ε (Vec α)) = Except.ok (v.replace (v.items.set i a)) := by
  rw [assign, RunD.assign_of_lt h]
  rfl

end Vec

/-! ### Views -/

/-- A pointer and a count.  A null pointer may come with any count; another one stands for
`count` readable items. -/
structure ArrayView (α : Type) where
  data : Option (List α)
  count : UInt32
  readable : ∀ items, data = some items → items.length = count.toNat

namespace ArrayView

def isNull (v : ArrayView α) : Bool := v.data.isNone

/-- `v.data[i]`; reading through a null pointer or past the count is a fault. -/
def get (v : ArrayView α) (i : Nat) : Checked ε α :=
  match v.data with
  | some items => fetch items i
  | none => Except.error Stop.outOfBounds

/-- The view of a vector: `v.data()` and `static_cast<u32>(v.size())`. -/
def ofList (items : List α) : ArrayView α where
  data := some (items.take (UInt32.ofNat items.length).toNat)
  count := UInt32.ofNat items.length
  readable := by
    rintro _ ⟨⟩
    rw [List.length_take, UInt32.toNat_ofNat']
    exact min_eq_left (Nat.mod_le _ _)

/-- The items a view shows. -/
def items (v : ArrayView α) : List α := v.data.getD []

/-- A view whose pointer is null only when there is nothing to read. -/
def Readable (v : ArrayView α) : Prop := v.count ≠ 0 → v.isNull = false

theorem items_length {v : ArrayView α} (h : v.Readable) : v.items.length = v.count.toNat := by
  unfold items
  rcases hd : v.data with - | xs
  · have hzero : v.count = 0 := by
      by_contra hne
      have := h hne
      simp [isNull, hd] at this
    simp [hzero]
  · exact v.readable xs hd

theorem get_eq_fetch {v : ArrayView α} (h : v.Readable) {i : Nat} (hi : i < v.count.toNat) :
    (v.get i : Checked ε α) = fetch v.items i := by
  have hlen := items_length h
  unfold get items at *
  rcases hd : v.data with - | xs
  · simp only [hd, Option.getD_none, List.length_nil] at hlen
    omega
  · rfl

theorem ofList_items {xs : List α} (h : xs.length < 2 ^ 32) : (ofList xs).items = xs := by
  have hlen : (UInt32.ofNat xs.length).toNat = xs.length := by
    rw [UInt32.toNat_ofNat']
    exact Nat.mod_eq_of_lt h
  show xs.take _ = xs
  rw [hlen, List.take_length]

@[simp] theorem ofList_isNull (xs : List α) : (ofList xs).isNull = false := rfl

end ArrayView

end RunD
