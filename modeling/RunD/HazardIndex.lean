/-
The index of the accesses of an alias group.

A balanced search tree holds the accesses by their offsets.  Each node caches
the height of its subtree, the interval that its envelopes span and the newest
access in it.  A query takes whole subtrees and single accesses out of a queue,
the newest first, and leaves out the subtrees whose interval it does not meet.

Whatever the order of the insertions, the tree stays ordered and balanced, its
caches are exact (`wellFormed_insertAll`), and a query comes upon the accesses
whose envelopes it meets from the newest on (`visitCandidates_eq`).
-/
import Mathlib.Data.List.Induction
import Mathlib.Data.List.Perm.Basic
import Mathlib.Order.Bounds.Basic
import Mathlib.Algebra.Order.Ring.Nat

namespace RunD.Hazard

/-! ### The tree -/

/-- The fields of `PhysicalAccess` that the index reads, and the place of the access. -/
structure Entry where
  index : Nat
  offset : UInt64
  envelopeEnd : UInt64
  deriving DecidableEq, Repr

/-- The accesses of a group: the links and the cached fields of `PhysicalAccess`. -/
inductive Tree where
  | leaf
  | node (root : Entry) (height : Nat) (subtreeBegin subtreeEnd : UInt64) (subtreeLatest : Nat)
      (left right : Tree)
  deriving DecidableEq, Repr

namespace Tree

/-- `height`. -/
def height : Tree → Nat
  | leaf => 0
  | node _ height _ _ _ _ _ => height

/-- The accesses of a subtree, in the order of the tree. -/
def entries : Tree → List Entry
  | leaf => []
  | node root _ _ _ _ left right => left.entries ++ root :: right.entries

/-- A cached field of a node, taken together with that of a child when there is one. -/
def joined {α : Type} (join : α → α → α) (cached : Tree → Option α) (own : α) (child : Tree) : α :=
  match cached child with
  | none => own
  | some other => join own other

def beginOf : Tree → Option UInt64
  | leaf => none
  | node _ _ subtreeBegin _ _ _ _ => some subtreeBegin

def endOf : Tree → Option UInt64
  | leaf => none
  | node _ _ _ subtreeEnd _ _ _ => some subtreeEnd

def latestOf : Tree → Option Nat
  | leaf => none
  | node _ _ _ _ subtreeLatest _ _ => some subtreeLatest

/-- `refresh`: a node with the cached fields that its children give. -/
def refresh (root : Entry) (left right : Tree) : Tree :=
  node root (1 + max left.height right.height)
    (joined min beginOf (joined min beginOf root.offset left) right)
    (joined max endOf (joined max endOf root.envelopeEnd left) right)
    (joined max latestOf (joined max latestOf root.index left) right) left right

/-- `rotate_left`. -/
def rotateLeft : Tree → Tree
  | node root _ _ _ _ left (node pivot _ _ _ _ middle right) =>
      refresh pivot (refresh root left middle) right
  | other => other

/-- `rotate_right`. -/
def rotateRight : Tree → Tree
  | node root _ _ _ _ (node pivot _ _ _ _ left middle) right =>
      refresh pivot left (refresh root middle right)
  | other => other

end Tree

/-- `before_key`. -/
def beforeKey (left right : Entry) : Bool :=
  left.offset < right.offset || (left.offset == right.offset && left.index < right.index)

/-- Whether an access goes before the root of a tree. -/
def Tree.goesBefore (inserted : Entry) : Tree → Bool
  | .leaf => false
  | .node root _ _ _ _ _ _ => beforeKey inserted root

/-- The end of `insert_access`: the heights of the two children are brought together again. -/
def rebalance (inserted root : Entry) (left right : Tree) : Tree :=
  let tree := Tree.refresh root left right
  if left.height > right.height + 1 then
    (Tree.refresh root
      (if left.goesBefore inserted then left else left.rotateLeft) right).rotateRight
  else if right.height > left.height + 1 then
    (Tree.refresh root left
      (if right.goesBefore inserted then right.rotateRight else right)).rotateLeft
  else tree

/-- `insert_access`. -/
def insertAccess (inserted : Entry) : Tree → Tree
  | .leaf => Tree.refresh inserted .leaf .leaf
  | .node root _ _ _ _ left right =>
      if beforeKey inserted root then rebalance inserted root (insertAccess inserted left) right
      else rebalance inserted root left (insertAccess inserted right)

/-- A sequence of insertions. -/
def insertAll (accesses : List Entry) : Tree :=
  accesses.foldl (fun tree inserted => insertAccess inserted tree) .leaf

/-! ### Queries -/

/-- `Candidate`: a subtree, or a single access. -/
inductive Candidate where
  | subtree (tree : Tree)
  | single (entry : Entry)
  deriving DecidableEq, Repr

namespace Candidate

def latest : Candidate → Nat
  | subtree tree => tree.latestOf.getD 0
  | single entry => entry.index

end Candidate

/-- `push_subtree`: a subtree that the query meets. -/
def pushSubtree (first last : UInt64) (tree : Tree) (queue : List Candidate) : List Candidate :=
  match tree with
  | .leaf => queue
  | .node _ _ subtreeBegin subtreeEnd _ _ _ =>
      if subtreeEnd ≤ first ∨ subtreeBegin ≥ last then queue else Candidate.subtree tree :: queue

/-- `push_single`: an access whose envelope the query meets. -/
def pushSingle (first last : UInt64) (entry : Entry) (queue : List Candidate) : List Candidate :=
  if entry.envelopeEnd ≤ first ∨ entry.offset ≥ last then queue
  else Candidate.single entry :: queue

/-- `pop_heap`: the newest candidate and the others. -/
def popLatest : List Candidate → Option (Candidate × List Candidate)
  | [] => none
  | candidate :: queue =>
      match popLatest queue with
      | none => some (candidate, [])
      | some (newest, rest) =>
          if candidate.latest < newest.latest then some (newest, candidate :: rest)
          else some (candidate, newest :: rest)

section Visit

variable {σ : Type}

/-- The loop of `visit_candidates`: the visitor says whether to go on. -/
def visitLoop (first last : UInt64) (visit : σ → Nat → σ × Bool) :
    Nat → List Candidate → σ → σ
  | 0, _, state => state
  | turns + 1, queue, state =>
      match popLatest queue with
      | none => state
      | some (Candidate.single entry, rest) =>
          match visit state entry.index with
          | (next, true) => visitLoop first last visit turns rest next
          | (next, false) => next
      | some (Candidate.subtree .leaf, rest) => visitLoop first last visit turns rest state
      | some (Candidate.subtree (.node root _ _ _ _ left right), rest) =>
          visitLoop first last visit turns
            (pushSingle first last root
              (pushSubtree first last right (pushSubtree first last left rest))) state

/-- `visit_candidates`: every access is taken out at most once as a subtree and once alone. -/
def visitCandidates (tree : Tree) (first last : UInt64) (visit : σ → Nat → σ × Bool) (state : σ) :
    σ :=
  visitLoop first last visit (2 * tree.entries.length) (pushSubtree first last tree []) state

/-- A visitor that goes over a list until it says to stop. -/
def visitUntil (visit : σ → Nat → σ × Bool) : List Nat → σ → σ
  | [], state => state
  | index :: rest, state =>
      match visit state index with
      | (next, true) => visitUntil visit rest next
      | (next, false) => next

end Visit

/-! ### The order of the tree -/

namespace Tree

@[simp] theorem entries_leaf : entries leaf = [] := rfl

@[simp] theorem entries_refresh (root : Entry) (left right : Tree) :
    (refresh root left right).entries = left.entries ++ root :: right.entries := rfl

@[simp] theorem entries_rotateLeft (tree : Tree) : tree.rotateLeft.entries = tree.entries := by
  cases tree with
  | leaf => rfl
  | node root height subtreeBegin subtreeEnd latest left right =>
      cases right with
      | leaf => rfl
      | node pivot height' begin' end' latest' middle right' => simp [rotateLeft, entries]

@[simp] theorem entries_rotateRight (tree : Tree) : tree.rotateRight.entries = tree.entries := by
  cases tree with
  | leaf => rfl
  | node root height subtreeBegin subtreeEnd latest left right =>
      cases left with
      | leaf => rfl
      | node pivot height' begin' end' latest' left' middle => simp [rotateRight, entries]

end Tree

@[simp] theorem entries_rebalance (inserted root : Entry) (left right : Tree) :
    (rebalance inserted root left right).entries = left.entries ++ root :: right.entries := by
  unfold rebalance
  simp only
  split
  · rw [Tree.entries_rotateRight, Tree.entries_refresh]
    split <;> simp
  · split
    · rw [Tree.entries_rotateLeft, Tree.entries_refresh]
      split <;> simp
    · rfl

theorem beforeKey_iff {left right : Entry} :
    beforeKey left right = true ↔ left.offset.toNat < right.offset.toNat ∨
      (left.offset.toNat = right.offset.toNat ∧ left.index < right.index) := by
  rw [beforeKey, Bool.or_eq_true, Bool.and_eq_true, decide_eq_true_iff, decide_eq_true_iff,
    beq_iff_eq, UInt64.lt_iff_toNat_lt, ← UInt64.toNat_inj]

/-- One access goes before another. -/
def Before (left right : Entry) : Prop := beforeKey left right = true

theorem Before.trans {first second third : Entry} (h : Before first second)
    (h' : Before second third) : Before first third := by
  rw [Before, beforeKey_iff] at *
  omega

theorem before_of_not {first second : Entry} (hne : first.index ≠ second.index)
    (h : ¬ Before first second) : Before second first := by
  rw [Before, beforeKey_iff] at *
  omega

/-- An access is inserted after those that go before it and before the others. -/
theorem entries_insertAccess (inserted : Entry) (tree : Tree)
    (hordered : tree.entries.Pairwise Before)
    (hfresh : ∀ entry ∈ tree.entries, inserted.index ≠ entry.index) :
    ∃ smaller greater, tree.entries = smaller ++ greater ∧
      (insertAccess inserted tree).entries = smaller ++ inserted :: greater ∧
      (∀ entry ∈ smaller, Before entry inserted) ∧ ∀ entry ∈ greater, Before inserted entry := by
  induction tree with
  | leaf => exact ⟨[], [], rfl, rfl, by simp, by simp⟩
  | node root height subtreeBegin subtreeEnd latest left right ihleft ihright =>
      rw [Tree.entries, List.pairwise_append, List.pairwise_cons] at hordered
      obtain ⟨hleft, ⟨hroot, hright⟩, hcross⟩ := hordered
      unfold insertAccess
      split
      · rename_i hbefore
        obtain ⟨smaller, greater, hsplit, hinserted, hsmaller, hgreater⟩ :=
          ihleft hleft fun entry hentry => hfresh entry (by simp [Tree.entries, hentry])
        refine ⟨smaller, greater ++ root :: right.entries, ?_, ?_, hsmaller, ?_⟩
        · rw [Tree.entries, hsplit, List.append_assoc]
        · rw [entries_rebalance, hinserted, List.append_assoc, List.cons_append]
        · intro entry hentry
          rw [List.mem_append, List.mem_cons] at hentry
          rcases hentry with hentry | rfl | hentry
          · exact hgreater entry hentry
          · exact hbefore
          · exact Before.trans hbefore (hroot entry hentry)
      · rename_i hbefore
        have hafter : Before root inserted :=
          before_of_not (hfresh root (by simp [Tree.entries])) hbefore
        obtain ⟨smaller, greater, hsplit, hinserted, hsmaller, hgreater⟩ :=
          ihright hright fun entry hentry => hfresh entry (by simp [Tree.entries, hentry])
        refine ⟨left.entries ++ root :: smaller, greater, ?_, ?_, ?_, hgreater⟩
        · rw [Tree.entries, hsplit, List.append_assoc, List.cons_append]
        · rw [entries_rebalance, hinserted, List.append_assoc, List.cons_append]
        · intro entry hentry
          rw [List.mem_append, List.mem_cons] at hentry
          rcases hentry with hentry | rfl | hentry
          · exact Before.trans (hcross entry hentry root (by simp)) hafter
          · exact hafter
          · exact hsmaller entry hentry

/-! ### The cached fields -/

/-- A cached field is the least value over a subtree, in some order; an empty one has none. -/
def Cached {α : Type} (le : α → α → Prop) (value : Entry → α) (cached : Option α)
    (entries : List Entry) : Prop :=
  match cached with
  | none => entries = []
  | some bound => (∃ entry ∈ entries, value entry = bound) ∧
      ∀ entry ∈ entries, le bound (value entry)

/-- What makes an operation take the least of two values. -/
structure Joins {α : Type} (le : α → α → Prop) (join : α → α → α) : Prop where
  refl : ∀ a, le a a
  trans : ∀ {a b c}, le a b → le b c → le a c
  below_left : ∀ a b, le (join a b) a
  below_right : ∀ a b, le (join a b) b
  chosen : ∀ a b, join a b = a ∨ join a b = b

theorem Cached.single {α : Type} {le : α → α → Prop} {join : α → α → α} (hjoin : Joins le join)
    {value : Entry → α} (entry : Entry) : Cached le value (some (value entry)) [entry] := by
  refine ⟨⟨entry, by simp, rfl⟩, ?_⟩
  intro other hother
  rw [List.mem_singleton] at hother
  rw [hother]
  exact hjoin.refl _

/-- The field of a node, after a child. -/
theorem Cached.joined {α : Type} {le : α → α → Prop} {join : α → α → α} (hjoin : Joins le join)
    {value : Entry → α} {cached : Tree → Option α} {own : α} {entries : List Entry} {child : Tree}
    (hown : Cached le value (some own) entries)
    (hchild : Cached le value (cached child) child.entries) :
    Cached le value (some (Tree.joined join cached own child)) (entries ++ child.entries) := by
  obtain ⟨⟨entry, hentry, hvalue⟩, hleast⟩ := hown
  rw [Tree.joined]
  cases hcached : cached child with
  | none =>
      rw [hcached] at hchild
      have hempty : child.entries = [] := hchild
      rw [hempty, List.append_nil]
      exact ⟨⟨entry, hentry, hvalue⟩, hleast⟩
  | some other =>
      rw [hcached] at hchild
      obtain ⟨⟨entry', hentry', hvalue'⟩, hleast'⟩ := hchild
      constructor
      · rcases hjoin.chosen own other with h | h
        · exact ⟨entry, List.mem_append_left _ hentry, hvalue.trans h.symm⟩
        · exact ⟨entry', List.mem_append_right _ hentry', hvalue'.trans h.symm⟩
      · intro any hany
        rcases List.mem_append.mp hany with hany | hany
        · exact hjoin.trans (hjoin.below_left own other) (hleast any hany)
        · exact hjoin.trans (hjoin.below_right own other) (hleast' any hany)

theorem Cached.congr {α : Type} {le : α → α → Prop} {value : Entry → α} {bound : α}
    {entries entries' : List Entry} (h : Cached le value (some bound) entries)
    (hsame : ∀ entry, entry ∈ entries ↔ entry ∈ entries') :
    Cached le value (some bound) entries' := by
  obtain ⟨⟨entry, hentry, hvalue⟩, hleast⟩ := h
  exact ⟨⟨entry, (hsame entry).mp hentry, hvalue⟩,
    fun any hany => hleast any ((hsame any).mpr hany)⟩

/-- The field of a node, after both children. -/
theorem Cached.refreshed {α : Type} {le : α → α → Prop} {join : α → α → α} (hjoin : Joins le join)
    {value : Entry → α} {cached : Tree → Option α} {root : Entry} {left right : Tree}
    (hleft : Cached le value (cached left) left.entries)
    (hright : Cached le value (cached right) right.entries) :
    Cached le value
      (some (Tree.joined join cached (Tree.joined join cached (value root) left) right))
      (left.entries ++ root :: right.entries) := by
  have hboth := ((Cached.single hjoin root).joined hjoin hleft).joined hjoin hright
  refine hboth.congr ?_
  intro entry
  simp only [List.mem_append, List.mem_cons]
  tauto

theorem joins_begin : Joins (fun a b : UInt64 => a ≤ b) min where
  refl := fun _ => UInt64.le_refl _
  trans := UInt64.le_trans
  below_left := fun _ _ => Std.min_le_left
  below_right := fun _ _ => Std.min_le_right
  chosen := fun _ _ => Std.min_eq_or

/-- The greater of two words. -/
theorem max_word (a b : UInt64) : max a b = if a ≤ b then b else a := rfl

theorem joins_end : Joins (fun a b : UInt64 => b ≤ a) max where
  refl := fun _ => UInt64.le_refl _
  trans := fun h h' => UInt64.le_trans h' h
  below_left := by
    intro a b
    rw [max_word]
    split
    · assumption
    · exact UInt64.le_refl _
  below_right := by
    intro a b
    rw [max_word]
    split
    · exact UInt64.le_refl _
    · rename_i h
      exact (UInt64.le_total a b).resolve_left h
  chosen := by
    intro a b
    rw [max_word]
    split
    · exact Or.inr rfl
    · exact Or.inl rfl

theorem joins_latest : Joins (fun a b : Nat => b ≤ a) max where
  refl := Nat.le_refl
  trans := fun h h' => Nat.le_trans h' h
  below_left := Nat.le_max_left
  below_right := Nat.le_max_right
  chosen := fun a b => by omega

namespace Tree

/-- The height of a tree as it is, not as it is cached. -/
def depth : Tree → Nat
  | leaf => 0
  | node _ _ _ _ _ left right => 1 + max left.depth right.depth

/-- Every cached field is that of its own subtree. -/
def Exact : Tree → Prop
  | leaf => True
  | node root height subtreeBegin subtreeEnd latest left right =>
      height = 1 + max left.depth right.depth ∧
      Cached (fun a b => a ≤ b) Entry.offset (some subtreeBegin)
        (left.entries ++ root :: right.entries) ∧
      Cached (fun a b => b ≤ a) Entry.envelopeEnd (some subtreeEnd)
        (left.entries ++ root :: right.entries) ∧
      Cached (fun a b => b ≤ a) Entry.index (some latest)
        (left.entries ++ root :: right.entries) ∧
      left.Exact ∧ right.Exact

/-- The heights of siblings differ by at most one. -/
def Balanced : Tree → Prop
  | leaf => True
  | node _ _ _ _ _ left right =>
      left.depth ≤ right.depth + 1 ∧ right.depth ≤ left.depth + 1 ∧
      left.Balanced ∧ right.Balanced

@[simp] theorem depth_leaf : depth leaf = 0 := rfl

@[simp] theorem depth_node (root : Entry) (height : Nat) (subtreeBegin subtreeEnd : UInt64)
    (latest : Nat) (left right : Tree) :
    (node root height subtreeBegin subtreeEnd latest left right).depth =
      1 + max left.depth right.depth := rfl

@[simp] theorem depth_refresh (root : Entry) (left right : Tree) :
    (refresh root left right).depth = 1 + max left.depth right.depth := rfl

theorem Exact.height_eq {tree : Tree} (h : tree.Exact) : tree.height = tree.depth := by
  cases tree with
  | leaf => rfl
  | node root height subtreeBegin subtreeEnd latest left right => exact h.1

theorem Exact.begin {tree : Tree} (h : tree.Exact) :
    Cached (fun a b => a ≤ b) Entry.offset tree.beginOf tree.entries := by
  cases tree with
  | leaf => rfl
  | node root height subtreeBegin subtreeEnd latest left right => exact h.2.1

theorem Exact.ending {tree : Tree} (h : tree.Exact) :
    Cached (fun a b => b ≤ a) Entry.envelopeEnd tree.endOf tree.entries := by
  cases tree with
  | leaf => rfl
  | node root height subtreeBegin subtreeEnd latest left right => exact h.2.2.1

theorem Exact.latest {tree : Tree} (h : tree.Exact) :
    Cached (fun a b => b ≤ a) Entry.index tree.latestOf tree.entries := by
  cases tree with
  | leaf => rfl
  | node root height subtreeBegin subtreeEnd latest left right => exact h.2.2.2.1

/-- A refreshed node is exact when its children are. -/
theorem Exact.refresh (root : Entry) {left right : Tree} (hleft : left.Exact)
    (hright : right.Exact) : (Tree.refresh root left right).Exact := by
  refine ⟨?_, ?_, ?_, ?_, hleft, hright⟩
  · rw [hleft.height_eq, hright.height_eq]
  · exact Cached.refreshed joins_begin hleft.begin hright.begin
  · exact Cached.refreshed joins_end hleft.ending hright.ending
  · exact Cached.refreshed joins_latest hleft.latest hright.latest

theorem Exact.rotateLeft {tree : Tree} (h : tree.Exact) : tree.rotateLeft.Exact := by
  cases tree with
  | leaf => exact h
  | node root height subtreeBegin subtreeEnd latest left right =>
      have hnode := h
      obtain ⟨-, -, -, -, hleft, hright⟩ := hnode
      cases right with
      | leaf => exact h
      | node pivot height' begin' end' latest' middle right' =>
          obtain ⟨-, -, -, -, hmiddle, hright'⟩ := hright
          exact Exact.refresh pivot (Exact.refresh root hleft hmiddle) hright'

theorem Exact.rotateRight {tree : Tree} (h : tree.Exact) : tree.rotateRight.Exact := by
  cases tree with
  | leaf => exact h
  | node root height subtreeBegin subtreeEnd latest left right =>
      have hnode := h
      obtain ⟨-, -, -, -, hleft, hright⟩ := hnode
      cases left with
      | leaf => exact h
      | node pivot height' begin' end' latest' left' middle =>
          obtain ⟨-, -, -, -, hleft', hmiddle⟩ := hleft
          exact Exact.refresh pivot hleft' (Exact.refresh root hmiddle hright)

end Tree

open Tree (Exact Balanced)

theorem Tree.Exact.rebalance (inserted root : Entry) {left right : Tree} (hleft : left.Exact)
    (hright : right.Exact) : (rebalance inserted root left right).Exact := by
  unfold Hazard.rebalance
  simp only
  split
  · apply Exact.rotateRight
    apply Exact.refresh root ?_ hright
    split
    · exact hleft
    · exact hleft.rotateLeft
  · split
    · apply Exact.rotateLeft
      apply Exact.refresh root hleft
      split
      · exact hright.rotateRight
      · exact hright
    · exact Exact.refresh root hleft hright

theorem Tree.Exact.insertAccess (inserted : Entry) {tree : Tree} (h : tree.Exact) :
    (insertAccess inserted tree).Exact := by
  induction tree with
  | leaf => exact Exact.refresh inserted trivial trivial
  | node root height subtreeBegin subtreeEnd latest left right ihleft ihright =>
      obtain ⟨-, -, -, -, hleft, hright⟩ := h
      unfold Hazard.insertAccess
      split
      · exact Exact.rebalance inserted root (ihleft hleft) hright
      · exact Exact.rebalance inserted root hleft (ihright hright)

/-! ### The balance of the tree -/

/-- A tree that is higher on the side that an access went to. -/
def Leans (inserted : Entry) : Tree → Prop
  | .leaf => False
  | .node root _ _ _ _ left right =>
      if beforeKey inserted root then left.depth = right.depth + 1
      else right.depth = left.depth + 1

/-- What an insertion makes of a subtree: it is as high as before, or one higher and then on the
side of the access, when there was anything. -/
def Grown (inserted : Entry) (before : Nat) (tree : Tree) : Prop :=
  tree.depth = before ∨ tree.depth = before + 1 ∧ (before = 0 ∨ Leans inserted tree)

section Balance

variable {inserted root : Entry} {left right : Tree} {before : Nat}

/-- An access that went to the left leaves a node balanced, and no higher when it is rotated. -/
theorem rebalance_left (hleft : left.Exact) (hright : right.Exact) (hbalanced : left.Balanced)
    (hbalanced' : right.Balanced) (hgrown : Grown inserted before left)
    (hlow : before ≤ right.depth + 1) (hhigh : right.depth ≤ before + 1)
    (hside : beforeKey inserted root = true) :
    (rebalance inserted root left right).Balanced ∧
      Grown inserted (1 + max before right.depth) (rebalance inserted root left right) := by
  unfold rebalance
  simp only [hleft.height_eq, hright.height_eq]
  by_cases hhigher : left.depth > right.depth + 1
  · rw [if_pos hhigher]
    -- the left subtree grew, and was not empty
    have hleans : left.depth = before + 1 ∧ Leans inserted left := by
      rcases hgrown with h | ⟨h, h' | h'⟩
      · omega
      · omega
      · exact ⟨h, h'⟩
    obtain ⟨hdepth, hleans⟩ := hleans
    cases left with
    | leaf => exact absurd hleans id
    | node pivot height first last latest outer inner =>
        obtain ⟨-, -, houter, hinner⟩ := hbalanced
        simp only [Leans] at hleans
        simp only [Tree.depth_node] at *
        by_cases hpivot : beforeKey inserted pivot = true
        · rw [if_pos hpivot] at hleans
          rw [if_pos (show (Tree.node pivot height first last latest outer inner).goesBefore
            inserted = true from hpivot)]
          refine ⟨⟨?_, ?_, houter, ?_, ?_, hinner, hbalanced'⟩, Or.inl ?_⟩
          · show outer.depth ≤ 1 + max inner.depth right.depth + 1
            omega
          · show 1 + max inner.depth right.depth ≤ outer.depth + 1
            omega
          · omega
          · omega
          · show 1 + max outer.depth (1 + max inner.depth right.depth) = _
            omega
        · rw [if_neg hpivot] at hleans
          rw [if_neg (show ¬ (Tree.node pivot height first last latest outer inner).goesBefore
            inserted = true from hpivot)]
          cases inner with
          | leaf =>
              rw [Tree.depth_leaf] at hleans
              omega
          | node middle height' first' last' latest' low high =>
              obtain ⟨hlow', hhigh', hbalancedLow, hbalancedHigh⟩ := hinner
              simp only [Tree.depth_node] at *
              refine ⟨⟨?_, ?_, ⟨?_, ?_, houter, hbalancedLow⟩, ?_, ?_, hbalancedHigh,
                hbalanced'⟩, Or.inl ?_⟩
              · show 1 + max outer.depth low.depth ≤ 1 + max high.depth right.depth + 1
                omega
              · show 1 + max high.depth right.depth ≤ 1 + max outer.depth low.depth + 1
                omega
              · omega
              · omega
              · omega
              · omega
              · show 1 + max (1 + max outer.depth low.depth)
                  (1 + max high.depth right.depth) = _
                omega
  · rw [if_neg hhigher, if_neg (by rcases hgrown with h | ⟨h, -⟩ <;> omega)]
    refine ⟨⟨by omega, by rcases hgrown with h | ⟨h, -⟩ <;> omega, hbalanced, hbalanced'⟩, ?_⟩
    rw [Grown, Tree.depth_refresh]
    by_cases hsame : 1 + max left.depth right.depth = 1 + max before right.depth
    · exact Or.inl hsame
    · refine Or.inr ⟨?_, Or.inr ?_⟩
      · rcases hgrown with h | ⟨h, -⟩ <;> omega
      · show if beforeKey inserted root = true then _ else _
        rw [if_pos hside]
        rcases hgrown with h | ⟨h, -⟩ <;> omega

/-- An access that went to the right leaves a node balanced, and no higher when it is rotated. -/
theorem rebalance_right (hleft : left.Exact) (hright : right.Exact) (hbalanced : left.Balanced)
    (hbalanced' : right.Balanced) (hgrown : Grown inserted before right)
    (hlow : before ≤ left.depth + 1) (hhigh : left.depth ≤ before + 1)
    (hside : ¬ beforeKey inserted root = true) :
    (rebalance inserted root left right).Balanced ∧
      Grown inserted (1 + max left.depth before) (rebalance inserted root left right) := by
  unfold rebalance
  simp only [hleft.height_eq, hright.height_eq]
  rw [if_neg (by rcases hgrown with h | ⟨h, -⟩ <;> omega)]
  by_cases hhigher : right.depth > left.depth + 1
  · rw [if_pos hhigher]
    -- the right subtree grew, and was not empty
    have hleans : right.depth = before + 1 ∧ Leans inserted right := by
      rcases hgrown with h | ⟨h, h' | h'⟩
      · omega
      · omega
      · exact ⟨h, h'⟩
    obtain ⟨hdepth, hleans⟩ := hleans
    cases right with
    | leaf => exact absurd hleans id
    | node pivot height first last latest inner outer =>
        obtain ⟨-, -, hinner, houter⟩ := hbalanced'
        simp only [Leans] at hleans
        simp only [Tree.depth_node] at *
        by_cases hpivot : beforeKey inserted pivot = true
        · rw [if_pos hpivot] at hleans
          rw [if_pos (show (Tree.node pivot height first last latest inner outer).goesBefore
            inserted = true from hpivot)]
          cases inner with
          | leaf =>
              rw [Tree.depth_leaf] at hleans
              omega
          | node middle height' first' last' latest' low high =>
              obtain ⟨hlow', hhigh', hbalancedLow, hbalancedHigh⟩ := hinner
              simp only [Tree.depth_node] at *
              refine ⟨⟨?_, ?_, ⟨?_, ?_, hbalanced, hbalancedLow⟩, ?_, ?_, hbalancedHigh,
                houter⟩, Or.inl ?_⟩
              · show 1 + max left.depth low.depth ≤ 1 + max high.depth outer.depth + 1
                omega
              · show 1 + max high.depth outer.depth ≤ 1 + max left.depth low.depth + 1
                omega
              · omega
              · omega
              · omega
              · omega
              · show 1 + max (1 + max left.depth low.depth)
                  (1 + max high.depth outer.depth) = _
                omega
        · rw [if_neg hpivot] at hleans
          rw [if_neg (show ¬ (Tree.node pivot height first last latest inner outer).goesBefore
            inserted = true from hpivot)]
          refine ⟨⟨?_, ?_, ⟨?_, ?_, hbalanced, hinner⟩, houter⟩, Or.inl ?_⟩
          · show 1 + max left.depth inner.depth ≤ outer.depth + 1
            omega
          · show outer.depth ≤ 1 + max left.depth inner.depth + 1
            omega
          · omega
          · omega
          · show 1 + max (1 + max left.depth inner.depth) outer.depth = _
            omega
  · rw [if_neg hhigher]
    refine ⟨⟨by rcases hgrown with h | ⟨h, -⟩ <;> omega, by omega, hbalanced, hbalanced'⟩, ?_⟩
    rw [Grown, Tree.depth_refresh]
    by_cases hsame : 1 + max left.depth right.depth = 1 + max left.depth before
    · exact Or.inl hsame
    · refine Or.inr ⟨?_, Or.inr ?_⟩
      · rcases hgrown with h | ⟨h, -⟩ <;> omega
      · show if beforeKey inserted root = true then _ else _
        rw [if_neg hside]
        rcases hgrown with h | ⟨h, -⟩ <;> omega

end Balance

/-- An insertion keeps a tree balanced, and makes it at most one higher. -/
theorem balanced_insertAccess (inserted : Entry) {tree : Tree} (hexact : tree.Exact)
    (hbalanced : tree.Balanced) :
    (insertAccess inserted tree).Balanced ∧
      Grown inserted tree.depth (insertAccess inserted tree) := by
  induction tree with
  | leaf =>
      refine ⟨⟨Nat.zero_le _, Nat.zero_le _, trivial, trivial⟩, Or.inr ⟨rfl, Or.inl rfl⟩⟩
  | node root height subtreeBegin subtreeEnd latest left right ihleft ihright =>
      obtain ⟨-, -, -, -, hleft, hright⟩ := hexact
      obtain ⟨hlow, hhigh, hbalanced, hbalanced'⟩ := hbalanced
      unfold insertAccess
      by_cases hside : beforeKey inserted root = true
      · rw [if_pos hside]
        obtain ⟨hinserted, hgrown⟩ := ihleft hleft hbalanced
        exact rebalance_left (hleft.insertAccess inserted) hright hinserted hbalanced' hgrown hlow
          hhigh hside
      · rw [if_neg hside]
        obtain ⟨hinserted, hgrown⟩ := ihright hright hbalanced'
        exact rebalance_right hleft (hright.insertAccess inserted) hbalanced hinserted hgrown
          hhigh hlow hside

/-! ### Sequences of insertions -/

/-- A tree of the accesses of a list. -/
structure WellFormed (accesses : List Entry) (tree : Tree) : Prop where
  holds : tree.entries.Perm accesses
  ordered : tree.entries.Pairwise Before
  balanced : tree.Balanced
  exact : tree.Exact

/-- One more access. -/
theorem WellFormed.insertAccess {accesses : List Entry} {tree : Tree} (inserted : Entry)
    (h : WellFormed accesses tree)
    (hfresh : ∀ entry ∈ accesses, inserted.index ≠ entry.index) :
    WellFormed (accesses ++ [inserted]) (insertAccess inserted tree) := by
  obtain ⟨smaller, greater, hsplit, hinserted, hsmaller, hgreater⟩ :=
    entries_insertAccess inserted tree h.ordered fun entry hentry =>
      hfresh entry (h.holds.mem_iff.mp hentry)
  have hordered := h.ordered
  rw [hsplit, List.pairwise_append] at hordered
  obtain ⟨hless, hmore, hcross⟩ := hordered
  refine ⟨?_, ?_, (balanced_insertAccess inserted h.exact h.balanced).1,
    h.exact.insertAccess inserted⟩
  · rw [hinserted]
    refine List.perm_middle.trans ?_
    rw [← hsplit]
    exact (h.holds.cons inserted).trans (List.perm_append_singleton inserted accesses).symm
  · rw [hinserted, List.pairwise_append, List.pairwise_cons]
    refine ⟨hless, ⟨hgreater, hmore⟩, ?_⟩
    intro entry hentry other hother
    rw [List.mem_cons] at hother
    rcases hother with rfl | hother
    · exact hsmaller entry hentry
    · exact hcross entry hentry other hother

/-- **After any sequence of insertions the tree is ordered and balanced, holds every access once,
and its cached fields are exact.** -/
theorem wellFormed_insertAll (accesses : List Entry)
    (hdistinct : (accesses.map Entry.index).Nodup) :
    WellFormed accesses (insertAll accesses) := by
  induction accesses using List.reverseRecOn with
  | nil => exact ⟨List.Perm.refl _, List.Pairwise.nil, trivial, trivial⟩
  | append_singleton accesses inserted ih =>
      rw [List.map_append, List.nodup_append] at hdistinct
      obtain ⟨hbefore, -, hfresh⟩ := hdistinct
      have hinsert : insertAll (accesses ++ [inserted]) =
          insertAccess inserted (insertAll accesses) := by
        rw [insertAll, List.foldl_append]
        rfl
      rw [hinsert]
      refine (ih hbefore).insertAccess inserted ?_
      intro entry hentry hsame
      exact hfresh entry.index (List.mem_map_of_mem hentry) inserted.index (by simp) hsame.symm

/-! ### What a query comes upon -/

/-- The envelope of an access meets a range. -/
def Entry.meets (first last : UInt64) (entry : Entry) : Bool :=
  first < entry.envelopeEnd && entry.offset < last

theorem Entry.meets_iff {first last : UInt64} {entry : Entry} :
    entry.meets first last = true ↔ ¬ (entry.envelopeEnd ≤ first ∨ entry.offset ≥ last) := by
  rw [Entry.meets, Bool.and_eq_true, decide_eq_true_iff, decide_eq_true_iff, not_or,
    UInt64.not_le, ge_iff_le, UInt64.not_le]

namespace Candidate

/-- The accesses that a candidate stands for. -/
def held : Candidate → List Entry
  | subtree tree => tree.entries
  | single entry => [entry]

/-- What can be in the queue. -/
def Queued (first last : UInt64) : Candidate → Prop
  | subtree tree => tree.Exact ∧ tree ≠ Tree.leaf
  | single entry => entry.meets first last = true

/-- How often a candidate and what comes of it are taken out. -/
def weight : Candidate → Nat
  | subtree tree => 2 * tree.entries.length
  | single _ => 1

/-- No access that a candidate stands for is newer than the candidate says. -/
theorem index_le_latest {first last : UInt64} {candidate : Candidate}
    (h : candidate.Queued first last) {entry : Entry} (hentry : entry ∈ candidate.held) :
    entry.index ≤ candidate.latest := by
  cases candidate with
  | single other =>
      rw [held, List.mem_singleton] at hentry
      rw [hentry]
      exact Nat.le_refl _
  | subtree tree =>
      have hlatest := h.1.latest
      cases tree with
      | leaf => exact absurd rfl h.2
      | node root height subtreeBegin subtreeEnd latest left right =>
          exact hlatest.2 entry hentry

end Candidate

open Candidate (held weight Queued)

/-- The accesses that a query has yet to come upon. -/
def pending (first last : UInt64) (queue : List Candidate) : List Nat :=
  ((queue.flatMap held).filter (Entry.meets first last)).map Entry.index

section Query

variable {first last : UInt64} {queue : List Candidate}

theorem mem_pending {index : Nat} : index ∈ pending first last queue ↔
    ∃ candidate ∈ queue, ∃ entry ∈ candidate.held, entry.meets first last = true ∧
      entry.index = index := by
  simp only [pending, List.mem_map, List.mem_filter, List.mem_flatMap]
  constructor
  · rintro ⟨entry, ⟨⟨candidate, hcandidate, hentry⟩, hmeets⟩, rfl⟩
    exact ⟨candidate, hcandidate, entry, hentry, hmeets, rfl⟩
  · rintro ⟨candidate, hcandidate, entry, hentry, hmeets, rfl⟩
    exact ⟨entry, ⟨⟨candidate, hcandidate, hentry⟩, hmeets⟩, rfl⟩

theorem pending_perm {queue' : List Candidate} (h : queue.Perm queue') :
    (pending first last queue).Perm (pending first last queue') :=
  ((h.flatMap_right held).filter _).map _

theorem pending_cons (candidate : Candidate) :
    pending first last (candidate :: queue) =
      (candidate.held.filter (Entry.meets first last)).map Entry.index ++
        pending first last queue := by
  simp [pending]

/-- A subtree that is left out holds nothing that the query meets. -/
theorem pending_pushSubtree {tree : Tree} (hexact : tree.Exact) :
    pending first last (pushSubtree first last tree queue) =
      (tree.entries.filter (Entry.meets first last)).map Entry.index ++
        pending first last queue := by
  cases tree with
  | leaf => rfl
  | node root height subtreeBegin subtreeEnd latest left right =>
      unfold pushSubtree
      simp only
      by_cases hapart : subtreeEnd ≤ first ∨ subtreeBegin ≥ last
      · rw [if_pos hapart]
        have hnone : (Tree.node root height subtreeBegin subtreeEnd latest left
            right).entries.filter (Entry.meets first last) = [] := by
          rw [List.filter_eq_nil_iff]
          intro entry hentry hmeets
          rw [Entry.meets_iff] at hmeets
          apply hmeets
          rcases hapart with h | h
          · exact Or.inl (UInt64.le_trans (hexact.ending.2 entry hentry) h)
          · exact Or.inr (UInt64.le_trans h (hexact.begin.2 entry hentry))
        rw [hnone, List.map_nil, List.nil_append]
      · rw [if_neg hapart, pending_cons, held]

theorem pending_pushSingle (entry : Entry) :
    pending first last (pushSingle first last entry queue) =
      ([entry].filter (Entry.meets first last)).map Entry.index ++ pending first last queue := by
  unfold pushSingle
  by_cases hapart : entry.envelopeEnd ≤ first ∨ entry.offset ≥ last
  · have hmeets : ¬ entry.meets first last = true := by
      rw [Entry.meets_iff]
      exact not_not.mpr hapart
    rw [if_pos hapart, List.filter_cons_of_neg hmeets]
    rfl
  · rw [if_neg hapart, pending_cons, held]

theorem queued_pushSubtree {tree : Tree} (hexact : tree.Exact)
    (h : ∀ candidate ∈ queue, Queued first last candidate) :
    ∀ candidate ∈ pushSubtree first last tree queue, Queued first last candidate := by
  cases tree with
  | leaf => exact h
  | node root height subtreeBegin subtreeEnd latest left right =>
      unfold pushSubtree
      simp only
      split
      · exact h
      · intro candidate hcandidate
        rcases List.mem_cons.mp hcandidate with rfl | hcandidate
        · exact ⟨hexact, by simp⟩
        · exact h candidate hcandidate

theorem queued_pushSingle (entry : Entry)
    (h : ∀ candidate ∈ queue, Queued first last candidate) :
    ∀ candidate ∈ pushSingle first last entry queue, Queued first last candidate := by
  unfold pushSingle
  split
  · exact h
  · rename_i hmeets
    intro candidate hcandidate
    rcases List.mem_cons.mp hcandidate with rfl | hcandidate
    · exact Entry.meets_iff.mpr hmeets
    · exact h candidate hcandidate

theorem weight_pushSubtree (tree : Tree) :
    ((pushSubtree first last tree queue).map weight).sum ≤
      2 * tree.entries.length + (queue.map weight).sum := by
  cases tree with
  | leaf => exact Nat.le_add_left _ _
  | node root height subtreeBegin subtreeEnd latest left right =>
      unfold pushSubtree
      simp only
      split
      · exact Nat.le_add_left _ _
      · rw [List.map_cons, List.sum_cons, weight]

theorem weight_pushSingle (entry : Entry) :
    ((pushSingle first last entry queue).map weight).sum ≤ 1 + (queue.map weight).sum := by
  unfold pushSingle
  split
  · exact Nat.le_add_left _ _
  · rw [List.map_cons, List.sum_cons, weight]

theorem popLatest_eq_none : popLatest queue = none ↔ queue = [] := by
  cases queue with
  | nil => simp [popLatest]
  | cons candidate queue =>
      rw [popLatest]
      cases popLatest queue with
      | none => simp
      | some newest =>
          simp only [reduceCtorEq, iff_false]
          split <;> simp

/-- What is taken out is the newest. -/
theorem popLatest_eq_some {newest : Candidate} {rest : List Candidate}
    (h : popLatest queue = some (newest, rest)) :
    queue.Perm (newest :: rest) ∧ ∀ candidate ∈ rest, candidate.latest ≤ newest.latest := by
  induction queue generalizing newest rest with
  | nil => exact absurd h (by simp [popLatest])
  | cons candidate queue ih =>
      rw [popLatest] at h
      cases hpop : popLatest queue with
      | none =>
          rw [hpop] at h
          obtain ⟨rfl, rfl⟩ := Prod.mk.inj (Option.some.inj h)
          rw [popLatest_eq_none.mp hpop]
          exact ⟨List.Perm.refl _, by simp⟩
      | some best =>
          obtain ⟨best, others⟩ := best
          obtain ⟨hperm, hbest⟩ := ih hpop
          rw [hpop] at h
          simp only at h
          split at h
          · rename_i hnewer
            obtain ⟨rfl, rfl⟩ := Prod.mk.inj (Option.some.inj h)
            refine ⟨(hperm.cons candidate).trans (List.Perm.swap _ _ _), ?_⟩
            intro other hother
            rcases List.mem_cons.mp hother with rfl | hother
            · exact Nat.le_of_lt hnewer
            · exact hbest other hother
          · rename_i holder
            obtain ⟨rfl, rfl⟩ := Prod.mk.inj (Option.some.inj h)
            refine ⟨hperm.cons candidate, ?_⟩
            intro other hother
            rcases List.mem_cons.mp hother with rfl | hother
            · exact Nat.le_of_not_lt holder
            · exact Nat.le_trans (hbest other hother) (Nat.le_of_not_lt holder)

end Query

section Visit

variable {σ : Type} {first last : UInt64} {visit : σ → Nat → σ × Bool}

/-- The loop goes over what is pending, from the newest on. -/
theorem visitLoop_eq (turns : Nat) (queue : List Candidate) (state : σ) (order : List Nat)
    (hqueued : ∀ candidate ∈ queue, Queued first last candidate)
    (hturns : (queue.map weight).sum ≤ turns) (hdecreasing : order.Pairwise (· > ·))
    (horder : order.Perm (pending first last queue)) :
    visitLoop first last visit turns queue state = visitUntil visit order state := by
  induction turns generalizing queue state order with
  | zero =>
      have hempty : queue = [] := by
        cases queue with
        | nil => rfl
        | cons candidate queue =>
            have hpos : 0 < candidate.weight := by
              have hcandidate := hqueued candidate (List.mem_cons_self ..)
              cases candidate with
              | single entry => exact Nat.one_pos
              | subtree tree =>
                  cases tree with
                  | leaf => exact absurd rfl hcandidate.2
                  | node =>
                      simp only [weight, Tree.entries, List.length_append, List.length_cons]
                      omega
            rw [List.map_cons, List.sum_cons] at hturns
            omega
      rw [hempty] at horder
      rw [horder.eq_nil]
      rfl
  | succ turns ih =>
      rw [visitLoop]
      cases hpop : popLatest queue with
      | none =>
          rw [popLatest_eq_none.mp hpop] at horder
          rw [horder.eq_nil]
          rfl
      | some popped =>
          obtain ⟨newest, rest⟩ := popped
          obtain ⟨hperm, hnewest⟩ := popLatest_eq_some hpop
          have hpending := horder.trans (pending_perm hperm)
          rw [pending_cons] at hpending
          have hrest : ∀ candidate ∈ rest, Queued first last candidate := fun candidate h =>
            hqueued candidate (hperm.mem_iff.mpr (List.mem_cons_of_mem _ h))
          have hself : Queued first last newest :=
            hqueued newest (hperm.mem_iff.mpr (List.mem_cons_self ..))
          rw [(hperm.map weight).sum_nat, List.map_cons, List.sum_cons] at hturns
          cases newest with
          | single entry =>
              -- nothing that is pending is newer
              have hmeets : entry.meets first last = true := hself
              rw [held, List.filter_cons_of_pos hmeets] at hpending
              have hfirst : ∀ index ∈ pending first last rest, index ≤ entry.index := by
                intro index hindex
                obtain ⟨candidate, hcandidate, other, hother, -, rfl⟩ := mem_pending.mp hindex
                exact Nat.le_trans (Candidate.index_le_latest (hrest candidate hcandidate) hother)
                  (hnewest candidate hcandidate)
              cases order with
              | nil => exact absurd hpending.length_eq (by simp)
              | cons index order =>
                  rw [List.pairwise_cons] at hdecreasing
                  have hindex : index = entry.index := by
                    have hmem : entry.index ∈ index :: order :=
                      hpending.mem_iff.mpr (by simp)
                    have hmem' : index ∈ entry.index :: pending first last rest :=
                      hpending.mem_iff.mp (by simp)
                    rcases List.mem_cons.mp hmem with h | h
                    · exact h.symm
                    · have hlt := hdecreasing.1 _ h
                      rcases List.mem_cons.mp hmem' with h' | h'
                      · exact h'
                      · have := hfirst index h'
                        omega
                  subst hindex
                  have htail : order.Perm (pending first last rest) := hpending.cons_inv
                  rw [weight] at hturns
                  simp only [visitUntil]
                  cases visit state entry.index with
                  | mk next goes =>
                      cases goes with
                      | false => rfl
                      | true => exact ih rest next order hrest (by omega) hdecreasing.2 htail
          | subtree tree =>
              cases tree with
              | leaf => exact absurd rfl hself.2
              | node root height subtreeBegin subtreeEnd latest left right =>
                  obtain ⟨-, -, -, -, hleft, hright⟩ := hself.1
                  simp only
                  refine ih _ state order ?_ ?_ hdecreasing ?_
                  · exact queued_pushSingle root
                      (queued_pushSubtree hright (queued_pushSubtree hleft hrest))
                  · rw [weight, Tree.entries, List.length_append, List.length_cons] at hturns
                    have hroot := @weight_pushSingle first last
                      (pushSubtree first last right (pushSubtree first last left rest)) root
                    have hrightWeight := @weight_pushSubtree first last
                      (pushSubtree first last left rest) right
                    have hleftWeight := @weight_pushSubtree first last rest left
                    omega
                  · rw [pending_pushSingle, pending_pushSubtree hright, pending_pushSubtree hleft]
                    refine hpending.trans ?_
                    rw [held, Tree.entries, ← List.singleton_append, List.filter_append,
                      List.map_append, List.append_assoc]
                    refine List.perm_append_comm_assoc _ _ _ |>.trans ?_
                    rw [List.filter_append, List.map_append, List.append_assoc]

/-- **A query comes upon the accesses whose envelopes it meets, each once and from the newest on,
until the visitor says to stop.** -/
theorem visitCandidates_eq {accesses : List Entry} {tree : Tree} (h : WellFormed accesses tree)
    {order : List Nat} (hdecreasing : order.Pairwise (· > ·))
    (horder : order.Perm ((accesses.filter (Entry.meets first last)).map Entry.index))
    (state : σ) :
    visitCandidates tree first last visit state = visitUntil visit order state := by
  apply visitLoop_eq
  · exact queued_pushSubtree h.exact (by simp)
  · exact Nat.le_trans (weight_pushSubtree tree) (by simp)
  · exact hdecreasing
  · rw [pending_pushSubtree h.exact]
    refine horder.trans ?_
    simp only [pending, List.flatMap_nil, List.filter_nil, List.map_nil, List.append_nil]
    exact ((h.holds.symm.filter _).map _)

end Visit

/-- Distinct numbers, from the greatest on. -/
theorem exists_decreasing {numbers : List Nat} (h : numbers.Nodup) :
    ∃ order : List Nat, order.Pairwise (· > ·) ∧ order.Perm numbers := by
  have hperm := List.mergeSort_perm numbers fun a b => decide (b ≤ a)
  have hsorted : (numbers.mergeSort fun a b => decide (b ≤ a)).Pairwise
      fun a b => decide (b ≤ a) = true := by
    apply List.pairwise_mergeSort
    · intro a b c hab hbc
      simp only [decide_eq_true_iff] at *
      omega
    · intro a b
      simp only [Bool.or_eq_true, decide_eq_true_iff]
      omega
  refine ⟨_, ?_, hperm⟩
  refine (hsorted.and (hperm.nodup_iff.mpr h)).imp ?_
  rintro a b ⟨hle, hne⟩
  rw [decide_eq_true_iff] at hle
  omega

/-- A query goes over the accesses it meets, from the newest on. -/
theorem WellFormed.exists_order {accesses : List Entry} {tree : Tree}
    (h : WellFormed accesses tree) (hdistinct : (accesses.map Entry.index).Nodup)
    (first last : UInt64) :
    ∃ order : List Nat, order.Pairwise (· > ·) ∧
      (∀ index, index ∈ order ↔
        ∃ entry ∈ accesses, entry.index = index ∧ entry.meets first last = true) ∧
      ∀ (σ : Type) (visit : σ → Nat → σ × Bool) (state : σ),
        visitCandidates tree first last visit state = visitUntil visit order state := by
  have hnodup : ((accesses.filter (Entry.meets first last)).map Entry.index).Nodup :=
    hdistinct.sublist (List.filter_sublist.map _)
  obtain ⟨order, hdecreasing, horder⟩ := exists_decreasing hnodup
  refine ⟨order, hdecreasing, ?_, fun σ visit state =>
    visitCandidates_eq h hdecreasing horder state⟩
  intro index
  rw [horder.mem_iff, List.mem_map]
  constructor
  · rintro ⟨entry, hentry, rfl⟩
    rw [List.mem_filter] at hentry
    exact ⟨entry, hentry.1, rfl, hentry.2⟩
  · rintro ⟨entry, hentry, rfl, hmeets⟩
    exact ⟨entry, List.mem_filter.mpr ⟨hentry, hmeets⟩, rfl⟩

/-- **The index of a group: after any sequence of insertions the tree is ordered and balanced with
exact cached fields, and a query comes upon the accesses it meets from the newest on.** -/
theorem accessIndex (accesses : List Entry) (hdistinct : (accesses.map Entry.index).Nodup) :
    WellFormed accesses (insertAll accesses) ∧
    ∀ first last : UInt64, ∃ order : List Nat, order.Pairwise (· > ·) ∧
      (∀ index, index ∈ order ↔
        ∃ entry ∈ accesses, entry.index = index ∧ entry.meets first last = true) ∧
      ∀ (σ : Type) (visit : σ → Nat → σ × Bool) (state : σ),
        visitCandidates (insertAll accesses) first last visit state =
          visitUntil visit order state := by
  have hwell := wellFormed_insertAll accesses hdistinct
  exact ⟨hwell, hwell.exists_order hdistinct⟩

/-- Three accesses one after the other: the tree is rotated once. -/
theorem accessIndex_three :
    ([⟨0, 0, 8⟩, ⟨1, 8, 16⟩, ⟨2, 16, 24⟩] : List Entry).map Entry.index = [0, 1, 2] ∧
      WellFormed [⟨0, 0, 8⟩, ⟨1, 8, 16⟩, ⟨2, 16, 24⟩]
        (insertAll [⟨0, 0, 8⟩, ⟨1, 8, 16⟩, ⟨2, 16, 24⟩]) :=
  ⟨rfl, (accessIndex [⟨0, 0, 8⟩, ⟨1, 8, 16⟩, ⟨2, 16, 24⟩] (by decide)).1⟩

end RunD.Hazard
