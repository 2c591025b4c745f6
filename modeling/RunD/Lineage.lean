/-
Forests given by parent links.

A forest over the numbers is a partial function `parent` that only goes down
(`Descends`).  The lineage of a node is the node and its ancestors, in the
order in which a walk along the links meets them.  Such a walk changes every
record of the lineage once and no other (`climb_eq`).
-/
import RunD.Checked

namespace RunD.Lineage

variable {ε α : Type}

/-! ### Lineages -/

/-- Every link goes to a smaller number. -/
def Descends (parent : Nat → Option Nat) : Prop := ∀ i p, parent i = some p → p < i

/-- The first nodes of a walk along the links. -/
def ancestors (parent : Nat → Option Nat) : Nat → Option Nat → List Nat
  | 0, _ => []
  | _ + 1, none => []
  | steps + 1, some i => i :: ancestors parent steps (parent i)

/-- A node and its ancestors. -/
def line (parent : Nat → Option Nat) (i : Nat) : List Nat := ancestors parent (i + 1) (some i)

variable {parent other : Nat → Option Nat}

@[simp] theorem ancestors_none (steps : Nat) : ancestors parent steps none = [] := by
  cases steps with
  | zero => rfl
  | succ steps => rfl

/-- Steps beyond the number of a node add nothing. -/
theorem Descends.ancestors_eq_line (h : Descends parent) {steps i : Nat} (hi : i < steps) :
    ancestors parent steps (some i) = line parent i := by
  induction steps using Nat.strongRecOn generalizing i with
  | _ steps ih =>
      cases steps with
      | zero => exact absurd hi (Nat.not_lt_zero i)
      | succ steps =>
          rw [line, ancestors, ancestors]
          congr 1
          rcases hp : parent i with - | p
          · rw [ancestors_none, ancestors_none]
          · have hlt := h i p hp
            rw [ih steps (Nat.lt_succ_self _) (by omega)]
            by_cases hsteps : i = steps
            · rw [hsteps, ih steps (Nat.lt_succ_self _) (by omega)]
            · rw [ih i (by omega) (by omega)]

theorem Descends.line_eq (h : Descends parent) (i : Nat) :
    line parent i = i :: (match parent i with | none => [] | some p => line parent p) := by
  rw [line, ancestors]
  congr 1
  rcases hp : parent i with - | p
  · exact ancestors_none i
  · exact h.ancestors_eq_line (h i p hp)

theorem self_mem_line (i : Nat) : i ∈ line parent i := List.mem_cons_self

theorem Descends.le_of_mem_line (h : Descends parent) {i j : Nat} (hj : j ∈ line parent i) :
    j ≤ i := by
  induction i using Nat.strongRecOn with
  | _ i ih =>
      rw [h.line_eq] at hj
      rcases List.mem_cons.mp hj with hself | hrest
      · exact Nat.le_of_eq hself
      · rcases hp : parent i with - | p
        · rw [hp] at hrest
          exact absurd hrest List.not_mem_nil
        · rw [hp] at hrest
          have hlt := h i p hp
          have := ih p hlt hrest
          omega

/-- Forests that agree up to a node give it the same lineage. -/
theorem Descends.line_congr (h : Descends parent) (hother : Descends other) {i : Nat}
    (hsame : ∀ j, j ≤ i → parent j = other j) : line parent i = line other i := by
  induction i using Nat.strongRecOn with
  | _ i ih =>
      rw [h.line_eq, hother.line_eq, ← hsame i (Nat.le_refl i)]
      congr 1
      rcases hp : parent i with - | p
      · rfl
      · have hlt := h i p hp
        exact ih p hlt fun j hj => hsame j (by omega)

/-! ### Walks -/

/-- `for (; node != nullptr; node = node->parent.get()) change(*node)`. -/
def climb (link : α → Option Nat) (change : α → Checked ε α) :
    Nat → Option Nat → List α → Checked ε (List α)
  | _, none, nodes => pure nodes
  | 0, some _, _ => Except.error Stop.outOfBounds
  | steps + 1, some i, nodes => do
      let node ← fetch nodes i
      let changed ← change node
      let nodes ← assign nodes i changed
      climb link change steps (link node) nodes

/-- `for (node = start; node != nullptr; node = node->parent.get()) if (!check(*node)) return false`. -/
def climbAll (link : α → Option Nat) (check : α → Checked ε Bool) (nodes : List α) :
    Nat → Option Nat → Checked ε Bool
  | _, none => pure true
  | 0, some _ => Except.error Stop.outOfBounds
  | steps + 1, some i => do
      let node ← fetch nodes i
      let holds ← check node
      if holds then climbAll link check nodes steps (link node) else pure false

/-- The links of a list of records. -/
def links (link : α → Option Nat) (nodes : List α) (i : Nat) : Option Nat := nodes[i]?.bind link

/-- The records of a lineage changed. -/
def changed (along : List Nat) (change : α → α) (nodes : List α) : List α :=
  nodes.mapIdx fun i node => if i ∈ along then change node else node

section Changed

variable {link : α → Option Nat} {nodes : List α} {change : α → α}

@[simp] theorem length_changed (along : List Nat) : (changed along change nodes).length = nodes.length :=
  List.length_mapIdx

theorem getElem?_changed (along : List Nat) (i : Nat) :
    (changed along change nodes)[i]? =
      nodes[i]?.map fun node => if i ∈ along then change node else node := by
  rw [changed, List.getElem?_mapIdx]

/-- Changes that keep the links keep the forest. -/
theorem links_changed (hlink : ∀ node, link (change node) = link node) (along : List Nat) :
    links link (changed along change nodes) = links link nodes := by
  funext i
  rw [links, links, getElem?_changed]
  cases nodes[i]? with
  | none => rfl
  | some node =>
      rw [Option.map_some, Option.bind_some, Option.bind_some]
      split_ifs
      · exact hlink node
      · rfl

end Changed

section Climb

variable {link : α → Option Nat} {nodes : List α}

/-- **A walk changes each record of the lineage once**, when its steps do not fail. -/
theorem climb_eq {step : α → Checked ε α} {change : α → α} (h : Descends (links link nodes))
    {start : Nat} (hstart : start < nodes.length)
    (hlink : ∀ node, link (change node) = link node)
    (hstep : ∀ i node, i ∈ line (links link nodes) start → nodes[i]? = some node →
      step node = Except.ok (change node)) {steps : Nat} (hsteps : start < steps) :
    climb link step steps (some start) nodes =
      Except.ok (changed (line (links link nodes) start) change nodes) := by
  induction steps generalizing start nodes with
  | zero => exact absurd hsteps (Nat.not_lt_zero start)
  | succ steps ih =>
      have hget : nodes[start]? = some nodes[start] := List.getElem?_eq_getElem hstart
      have hset : nodes.set start (change nodes[start]) = changed [start] change nodes := by
        apply List.ext_getElem?
        intro i
        rw [getElem?_changed]
        by_cases hi : i = start
        · rw [hi, List.getElem?_set_self hstart, hget, Option.map_some,
            if_pos (List.mem_singleton.mpr rfl)]
        · rw [List.getElem?_set_ne (Ne.symm hi)]
          cases nodes[i]? with
          | none => rfl
          | some node => rw [Option.map_some, if_neg (by simpa using hi)]
      rw [climb, fetch_of_lt hget, ok_bind, hstep start _ (self_mem_line start) hget, ok_bind,
        assign_of_lt hstart, ok_bind, hset]
      have hparent : links link nodes start = link nodes[start] := by
        rw [links, hget]
        rfl
      rcases hp : link nodes[start] with - | p
      · rw [h.line_eq, hparent, hp]
        cases steps with
        | zero => rfl
        | succ steps => rfl
      · have hlt : p < start := h start p (hparent.trans hp)
        have hline : line (links link nodes) start = start :: line (links link nodes) p := by
          rw [h.line_eq, hparent, hp]
        have hsame := @links_changed _ link nodes change hlink [start]
        rw [@ih (changed [start] change nodes) (by rw [hsame]; exact h) p
          (by rw [length_changed]; omega) ?_ (by omega), hsame, hline]
        · congr 1
          apply List.ext_getElem?
          intro i
          rw [getElem?_changed, getElem?_changed, getElem?_changed]
          cases nodes[i]? with
          | none => rfl
          | some node =>
              rw [Option.map_some, Option.map_some, Option.map_some]
              congr 1
              by_cases hi : i = start
              · have hout : i ∉ line (links link nodes) p := fun hmem => by
                  have := h.le_of_mem_line hmem
                  omega
                rw [if_neg hout, if_pos (List.mem_singleton.mpr hi),
                  if_pos (List.mem_cons.mpr (Or.inl hi))]
              · rw [if_neg (show i ∉ [start] by simpa using hi)]
                simp only [List.mem_cons, hi, false_or]
        · intro i node hi hnode
          rw [hsame] at hi
          have hle := h.le_of_mem_line hi
          rw [getElem?_changed] at hnode
          rcases hold : nodes[i]? with - | old
          · rw [hold] at hnode
            cases hnode
          · rw [hold, Option.map_some, if_neg (by simpa using (by omega : i ≠ start))] at hnode
            injection hnode with hnode
            subst hnode
            exact hstep i old (by rw [hline]; exact List.mem_cons_of_mem _ hi) hold

/-- A walk of checks answers whether they all hold. -/
theorem climbAll_eq {check : α → Checked ε Bool} {holds : α → Bool} (h : Descends (links link nodes))
    {start : Nat} (hstart : start < nodes.length)
    (hcheck : ∀ i node, i ∈ line (links link nodes) start → nodes[i]? = some node →
      check node = Except.ok (holds node)) {steps : Nat} (hsteps : start < steps) :
    climbAll link check nodes steps (some start) =
      Except.ok ((line (links link nodes) start).all fun i => (nodes[i]?.map holds).getD true) := by
  induction steps generalizing start with
  | zero => exact absurd hsteps (Nat.not_lt_zero start)
  | succ steps ih =>
      have hget : nodes[start]? = some nodes[start] := List.getElem?_eq_getElem hstart
      have hparent : links link nodes start = link nodes[start] := by
        rw [links, hget]
        rfl
      rw [climbAll, fetch_of_lt hget, ok_bind, hcheck start _ (self_mem_line start) hget, ok_bind]
      rcases hp : link nodes[start] with - | p
      · rw [h.line_eq, hparent, hp, List.all_cons, List.all_nil, hget, Bool.and_true]
        cases hholds : holds nodes[start] with
        | false =>
            rw [if_neg Bool.noConfusion, Option.map_some, Option.getD_some, hholds]
            rfl
        | true =>
            rw [if_pos rfl, Option.map_some, Option.getD_some, hholds]
            cases steps with
            | zero => rfl
            | succ steps => rfl
      · have hlt : p < start := h start p (hparent.trans hp)
        have hline : line (links link nodes) start = start :: line (links link nodes) p := by
          rw [h.line_eq, hparent, hp]
        rw [hline, List.all_cons, hget, Option.map_some, Option.getD_some]
        cases hholds : holds nodes[start] with
        | false =>
            rw [if_neg Bool.noConfusion, Bool.false_and]
            rfl
        | true =>
            rw [if_pos rfl, Bool.true_and]
            exact ih (by omega)
              (fun i node hi => hcheck i node (by rw [hline]; exact List.mem_cons_of_mem _ hi))
              (by omega)

end Climb

end RunD.Lineage
