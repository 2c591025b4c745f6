/-
Conflicts that are recorded up to a frontier.

The accesses of a stream are numbered in its order, and each belongs to a
node.  For every access the earlier ones are looked at from the newest on, and
the nodes of those it conflicts with are recorded before its own; the look back
ends at the first conflict that takes in the whole access, its frontier.

What lies behind a frontier is still ordered when it conflicts with the
frontier itself.  `reaches_iff` says exactly when all conflicts are ordered by
the recorded ones.
-/
import Mathlib.Logic.Relation
import Mathlib.Order.Basic

namespace RunD.Frontier

open Relation

variable (node : Nat → Nat) (conflict whole : Nat → Nat → Prop)

/-! ### Looking back -/

/-- A conflict with an earlier access that is not behind the frontier. -/
structure Visible (earlier later : Nat) : Prop where
  before : earlier < later
  conflicts : conflict earlier later
  reached : ∀ middle, earlier < middle → middle < later →
    ¬ (conflict middle later ∧ whole middle later)

/-- A conflict with an earlier access behind a frontier that does not order the two. -/
structure Hidden (earlier later : Nat) : Prop where
  before : earlier < later
  conflicts : conflict earlier later
  behind : ∃ middle, earlier < middle ∧ Visible conflict whole middle later ∧
    whole middle later ∧ node middle ≠ node earlier ∧ ¬ conflict earlier middle

/-- The nodes of a conflict that is recorded. -/
def Recorded (first second : Nat) : Prop :=
  ∃ earlier later, Visible conflict whole earlier later ∧ node earlier = first ∧
    node later = second

/-- The nodes of a conflict that is not hidden. -/
def Standing (first second : Nat) : Prop :=
  ∃ earlier later, earlier < later ∧ conflict earlier later ∧
    ¬ Hidden node conflict whole earlier later ∧ node earlier = first ∧ node later = second

variable {node conflict whole}

theorem Visible.not_hidden {earlier later : Nat} (h : Visible conflict whole earlier later) :
    ¬ Hidden node conflict whole earlier later := by
  intro hhidden
  obtain ⟨middle, hearlier, hvisible, hwhole, -⟩ := hhidden.behind
  exact h.reached middle hearlier hvisible.before ⟨hvisible.conflicts, hwhole⟩

/-- A conflict is reached, or it is behind a frontier that is. -/
theorem visible_or_behind {earlier later : Nat} (hlt : earlier < later)
    (hconflict : conflict earlier later) :
    Visible conflict whole earlier later ∨
      ∃ middle, earlier < middle ∧ Visible conflict whole middle later ∧ whole middle later := by
  by_cases hbehind : ∃ middle, earlier < middle ∧ middle < later ∧ conflict middle later ∧
      whole middle later
  · obtain ⟨middle, hearlier, hlater, hmiddle, hwhole⟩ := hbehind
    -- the newest of the accesses that take in the whole
    rcases visible_or_behind hlater hmiddle with hvisible | ⟨newer, hnewer, hvisible, hwhole'⟩
    · exact Or.inr ⟨middle, hearlier, hvisible, hwhole⟩
    · exact Or.inr ⟨newer, Nat.lt_trans hearlier hnewer, hvisible, hwhole'⟩
  · refine Or.inl ⟨hlt, hconflict, ?_⟩
    rintro middle hearlier hlater ⟨hmiddle, hwhole⟩
    exact hbehind ⟨middle, hearlier, hlater, hmiddle, hwhole⟩
  termination_by later - earlier

/-! ### What the recorded conflicts order -/

section Orders

variable (horder : ∀ {earlier later : Nat}, earlier < later → conflict earlier later →
  node earlier < node later)

include horder

theorem Standing.lt {first second : Nat} (h : Standing node conflict whole first second) :
    first < second := by
  obtain ⟨earlier, later, hlt, hconflict, -, rfl, rfl⟩ := h
  exact horder hlt hconflict

/-- A conflict that is not hidden is ordered by the recorded ones, when the others that stand
order the hidden ones. -/
theorem Standing.recorded
    (hhidden : ∀ earlier later, Hidden node conflict whole earlier later →
      TransGen (Standing node conflict whole) (node earlier) (node later)) {first second : Nat}
    (h : Standing node conflict whole first second) :
    TransGen (Recorded node conflict whole) first second := by
  induction second using Nat.strongRecOn generalizing first with
  | ind second ih =>
      -- a chain that ends before this node is recorded
      have hchain : ∀ {start last : Nat}, TransGen (Standing node conflict whole) start last →
          last < second → TransGen (Recorded node conflict whole) start last := by
        intro start last hreaches
        induction hreaches with
        | single hstep => exact fun hlast => ih _ hlast hstep
        | tail hrest hstep ihrest =>
            intro hlast
            have hmiddle := Nat.lt_trans (hstep.lt horder) hlast
            exact (ihrest hmiddle).trans (ih _ hlast hstep)
      obtain ⟨earlier, later, hlt, hconflict, hstands, rfl, rfl⟩ := h
      rcases @visible_or_behind conflict whole _ _ hlt hconflict with
        hvisible | ⟨middle, hearlier, hvisible, hwhole⟩
      · exact TransGen.single ⟨earlier, later, hvisible, rfl, rfl⟩
      · have hlast : Recorded node conflict whole (node middle) (node later) :=
          ⟨middle, later, hvisible, rfl, rfl⟩
        have hbelow : node middle < node later := horder hvisible.before hvisible.conflicts
        by_cases hsame : node middle = node earlier
        · rw [← hsame]
          exact TransGen.single hlast
        · have hfrontier : conflict earlier middle := by
            by_contra hnone
            exact hstands ⟨hlt, hconflict, middle, hearlier, hvisible, hwhole, hsame, hnone⟩
          refine TransGen.tail ?_ hlast
          by_cases hbehind : Hidden node conflict whole earlier middle
          · exact hchain (hhidden earlier middle hbehind) hbelow
          · exact ih _ hbelow ⟨earlier, middle, hearlier, hfrontier, hbehind, rfl, rfl⟩

/-- **All conflicts are ordered by the recorded ones exactly when the conflicts that stand order
the hidden ones.** -/
theorem reaches_iff :
    (∀ earlier later, earlier < later → conflict earlier later →
        TransGen (Recorded node conflict whole) (node earlier) (node later)) ↔
      ∀ earlier later, Hidden node conflict whole earlier later →
        TransGen (Standing node conflict whole) (node earlier) (node later) := by
  constructor
  · intro hreaches earlier later hhidden
    refine TransGen.mono ?_ _ _ (hreaches earlier later hhidden.before hhidden.conflicts)
    rintro first second ⟨earlier, later, hvisible, hfirst, hsecond⟩
    exact ⟨earlier, later, hvisible.before, hvisible.conflicts, hvisible.not_hidden, hfirst,
      hsecond⟩
  · intro hhidden earlier later hlt hconflict
    have hchain : ∀ {start last : Nat}, TransGen (Standing node conflict whole) start last →
        TransGen (Recorded node conflict whole) start last := by
      intro start last hchain
      induction hchain with
      | single hstep => exact hstep.recorded horder hhidden
      | tail _ hstep ih => exact ih.trans (hstep.recorded horder hhidden)
    by_cases hbehind : Hidden node conflict whole earlier later
    · exact hchain (hhidden earlier later hbehind)
    · exact Standing.recorded horder hhidden ⟨earlier, later, hlt, hconflict, hbehind, rfl, rfl⟩

end Orders

end RunD.Frontier
