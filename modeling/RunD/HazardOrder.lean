/-
Which conflicts the dependencies of a plan order.

The dependencies are the nodes of the conflicts that the look back reaches
(`mem_dependencies_iff`).  An access that covers another's envelope ends the look back;
an older access is then ordered by it unless both only read.  The reads that
are left out that way are the hidden ones, and a plan orders all conflicts
exactly when they are ordered by the conflicts that are not hidden
(`analyze_orders_iff`).  Two reads before a write of the same bytes are enough
to leave one out.
-/
import RunD.Frontier
import RunD.HazardOverlap
import RunD.HazardPlan

namespace RunD.Hazard

open Frontier Relation

/-! ### One look back -/

/-- Two accesses of different nodes overlap, and one of them writes. -/
def Conflicts (before current : PhysicalAccess) : Prop :=
  (findOverlap before current).isSome ∧ ordersModes before current = true

/-- The overlap of two accesses is the whole envelope of the later one. -/
def Covers (before current : PhysicalAccess) : Prop :=
  ∃ overlap, findOverlap before current = some overlap ∧ coversWhole current overlap = true

theorem mem_record {plan : Plan} {dependency other : Dependency} {witness : Barrier} :
    other ∈ (plan.record dependency witness).dependencies ↔
      other ∈ plan.dependencies ∨ other = dependency := by
  unfold Plan.record
  cases hrow : plan.dependencies.findIdx? (· == dependency) with
  | none => simp
  | some row =>
      have hmem : dependency ∈ plan.dependencies := by
        obtain ⟨hrow, heq, -⟩ := List.findIdx?_eq_some_iff_getElem.mp hrow
        rw [← beq_iff_eq.mp heq]
        exact List.getElem_mem hrow
      have hsame : ∀ dependencies, dependencies = plan.dependencies →
          (other ∈ dependencies ↔ other ∈ plan.dependencies ∨ other = dependency) := by
        rintro dependencies rfl
        constructor
        · exact Or.inl
        · rintro (h | rfl)
          · exact h
          · exact hmem
      apply hsame
      simp only
      split
      · rfl
      · split <;> rfl

/-- The places of a conflict, and of a covering access, before an access. -/
def conflictAt (prior : List PhysicalAccess) (earlier later : Nat) : Prop :=
  ∃ before current, prior[earlier]? = some before ∧ prior[later]? = some current ∧
    Conflicts before current

def coversAt (prior : List PhysicalAccess) (earlier later : Nat) : Prop :=
  ∃ before current, prior[earlier]? = some before ∧ prior[later]? = some current ∧
    Covers before current

/-- The node of an access. -/
def nodeAt (prior : List PhysicalAccess) (index : Nat) : Nat :=
  (prior[index]?.map fun access => access.access.node.toNat).getD 0

section Look

variable {prior : List PhysicalAccess} {current : PhysicalAccess} {plan : Plan} {index : Nat}

theorem recordConflict_of_conflict {before : PhysicalAccess} (hbefore : prior[index]? = some before)
    (h : Conflicts before current) :
    ∃ witness, recordConflict prior current plan index =
      (plan.record (dependencyOf before current) witness,
        !((findOverlap before current).any (coversWhole current))) := by
  obtain ⟨hsome, hmodes⟩ := h
  obtain ⟨overlap, hoverlap⟩ := Option.isSome_iff_exists.mp hsome
  refine ⟨witnessOf before current overlap, ?_⟩
  simp only [recordConflict, hbefore, hoverlap, if_pos hmodes, Option.any_some]

theorem recordConflict_of_none {before : PhysicalAccess} (hbefore : prior[index]? = some before)
    (h : ¬ Conflicts before current) : recordConflict prior current plan index = (plan, true) := by
  cases hoverlap : findOverlap before current with
  | none => simp only [recordConflict, hbefore, hoverlap]
  | some overlap =>
      have hmodes : ¬ ordersModes before current = true := fun hmodes =>
        h ⟨by rw [hoverlap]; rfl, hmodes⟩
      simp only [recordConflict, hbefore, hoverlap, if_neg hmodes]

theorem any_covers_iff {before : PhysicalAccess} :
    (findOverlap before current).any (coversWhole current) = true ↔ Covers before current := by
  rw [Option.any_eq_true]
  constructor
  · rintro ⟨overlap, hoverlap, hcovers⟩
    exact ⟨overlap, hoverlap, hcovers⟩
  · rintro ⟨overlap, hoverlap, hcovers⟩
    exact ⟨overlap, hoverlap, hcovers⟩

/-- The conflicts of a look back that no newer covering one hides. -/
def Reached (prior : List PhysicalAccess) (current : PhysicalAccess) (order : List Nat)
    (place : Nat) (before : PhysicalAccess) : Prop :=
  prior[place]? = some before ∧ Conflicts before current ∧
    ∀ newer ∈ order, place < newer → ∀ middle, prior[newer]? = some middle →
      ¬ (Conflicts middle current ∧ Covers middle current)

/-- What a look back records. -/
theorem mem_visitUntil {order : List Nat} (hdecreasing : order.Pairwise (· > ·))
    (hplaces : ∀ place ∈ order, place < prior.length) {dependency : Dependency} :
    dependency ∈ (visitUntil (recordConflict prior current) order plan).dependencies ↔
      dependency ∈ plan.dependencies ∨
      ∃ place ∈ order, ∃ before, Reached prior current order place before ∧
        dependency = dependencyOf before current := by
  induction order generalizing plan with
  | nil => simp [visitUntil]
  | cons place order ih =>
      rw [List.pairwise_cons] at hdecreasing
      obtain ⟨hnewest, hdecreasing⟩ := hdecreasing
      have hplace := hplaces place (by simp)
      have hplaces' : ∀ place ∈ order, place < prior.length := fun other h =>
        hplaces other (List.mem_cons_of_mem _ h)
      obtain ⟨before, hbefore⟩ : ∃ before, prior[place]? = some before :=
        ⟨prior[place], List.getElem?_eq_getElem hplace⟩
      -- the newest place is reached whenever it conflicts
      have hself : Conflicts before current →
          Reached prior current (place :: order) place before := by
        intro hconflicts
        refine ⟨hbefore, hconflicts, ?_⟩
        intro newer hnewer hlt
        rcases List.mem_cons.mp hnewer with rfl | hnewer
        · omega
        · have := hnewest newer hnewer
          omega
      -- an older one is reached when the newest does not hide it
      have hothers : ¬ (Conflicts before current ∧ Covers before current) →
          ∀ other ∈ order, ∀ access, Reached prior current (place :: order) other access ↔
            Reached prior current order other access := by
        intro hopen other hother access
        constructor
        · rintro ⟨haccess, hconflicts, hnone⟩
          exact ⟨haccess, hconflicts, fun newer hnewer =>
            hnone newer (List.mem_cons_of_mem _ hnewer)⟩
        · rintro ⟨haccess, hconflicts, hnone⟩
          refine ⟨haccess, hconflicts, ?_⟩
          intro newer hnewer hlt middle hmiddle
          rcases List.mem_cons.mp hnewer with rfl | hnewer
          · rw [hbefore] at hmiddle
            obtain rfl := Option.some.inj hmiddle
            exact hopen
          · exact hnone newer hnewer hlt middle hmiddle
      have hsplit : ¬ (Conflicts before current ∧ Covers before current) →
          ((∃ other ∈ place :: order, ∃ access, Reached prior current (place :: order) other access ∧
            dependency = dependencyOf access current) ↔
          (Conflicts before current ∧ dependency = dependencyOf before current) ∨
          ∃ other ∈ order, ∃ access, Reached prior current order other access ∧
            dependency = dependencyOf access current) := by
        intro hopen
        constructor
        · rintro ⟨other, hother, access, hreached, hsame⟩
          rcases List.mem_cons.mp hother with rfl | hother
          · have haccess := hreached.1
            rw [hbefore] at haccess
            obtain rfl := Option.some.inj haccess
            exact Or.inl ⟨hreached.2.1, hsame⟩
          · exact Or.inr ⟨other, hother, access, (hothers hopen other hother access).mp hreached,
              hsame⟩
        · rintro (⟨hconflicts, hsame⟩ | ⟨other, hother, access, hreached, hsame⟩)
          · exact ⟨place, by simp, before, hself hconflicts, hsame⟩
          · exact ⟨other, List.mem_cons_of_mem _ hother, access,
              (hothers hopen other hother access).mpr hreached, hsame⟩
      rw [visitUntil]
      by_cases hconflicts : Conflicts before current
      · obtain ⟨witness, hrecord⟩ := @recordConflict_of_conflict prior current plan place before
          hbefore hconflicts
        rw [hrecord]
        by_cases hcovers : Covers before current
        · rw [any_covers_iff.mpr hcovers]
          simp only [Bool.not_true]
          rw [mem_record]
          refine or_congr Iff.rfl ?_
          constructor
          · intro hsame
            exact ⟨place, by simp, before, hself hconflicts, hsame⟩
          · rintro ⟨other, hother, access, hreached, hsame⟩
            rcases List.mem_cons.mp hother with rfl | hother
            · have haccess := hreached.1
              rw [hbefore] at haccess
              obtain rfl := Option.some.inj haccess
              exact hsame
            · exact absurd ⟨hconflicts, hcovers⟩
                (hreached.2.2 place (by simp) (hnewest other hother) before hbefore)
        · rw [Bool.eq_false_iff.mpr fun h => hcovers (any_covers_iff.mp h)]
          simp only [Bool.not_false]
          rw [ih hdecreasing hplaces', mem_record, hsplit fun h => hcovers h.2, or_assoc]
          refine or_congr Iff.rfl (or_congr ?_ Iff.rfl)
          exact ⟨fun h => ⟨hconflicts, h⟩, fun h => h.2⟩
      · rw [recordConflict_of_none hbefore hconflicts]
        simp only
        rw [ih hdecreasing hplaces', hsplit fun h => hconflicts h.1]
        refine or_congr Iff.rfl ?_
        constructor
        · exact Or.inr
        · rintro (h | h)
          · exact absurd h.1 hconflicts
          · exact h

end Look

/-! ### The whole stream -/

/-- The accesses of a group, with their places. -/
def groupEntries (prior : List PhysicalAccess) (group : UInt64) : List Entry :=
  (prior.zipIdx.filter fun (access, _) => access.aliasGroup = group).map
    fun (access, index) => access.entry index

theorem mem_groupEntries {prior : List PhysicalAccess} {group : UInt64} {entry : Entry} :
    entry ∈ groupEntries prior group ↔ ∃ (access : PhysicalAccess) (index : Nat),
      prior[index]? = some access ∧ access.aliasGroup = group ∧ access.entry index = entry := by
  simp only [groupEntries, List.mem_map, List.mem_filter, Prod.exists, decide_eq_true_iff,
    List.mk_mem_zipIdx_iff_getElem?, and_assoc]

theorem groupEntries_concat (prior : List PhysicalAccess) (current : PhysicalAccess)
    (group : UInt64) :
    groupEntries (prior ++ [current]) group =
      if group = current.aliasGroup then
        groupEntries prior group ++ [current.entry prior.length]
      else groupEntries prior group := by
  unfold groupEntries
  rw [List.zipIdx_append, List.filter_append, List.map_append]
  by_cases hgroup : group = current.aliasGroup
  · simp [hgroup]
  · have hother : ¬ current.aliasGroup = group := fun h => hgroup h.symm
    simp [hgroup, hother]

theorem nodup_groupEntries (prior : List PhysicalAccess) (group : UInt64) :
    ((groupEntries prior group).map Entry.index).Nodup := by
  have hindices : ((groupEntries prior group).map Entry.index).Sublist
      (prior.zipIdx.map Prod.snd) := by
    unfold groupEntries
    rw [List.map_map]
    exact List.filter_sublist.map Prod.snd
  refine List.Nodup.sublist hindices ?_
  rw [List.zipIdx_map_snd]
  exact List.nodup_range'

/-- What the analysis keeps from one access to the next. -/
structure Analyzed (analysis : Analysis) : Prop where
  placed : ∀ access ∈ analysis.prior, access.Placed
  nodes : analysis.prior.Pairwise fun before current =>
    before.access.node.toNat ≤ current.access.node.toNat
  latest : ∀ access ∈ analysis.prior,
    access.access.node.toNat ≤ (analysis.previousNode.getD 0).toNat
  indexed : ∀ group, WellFormed (groupEntries analysis.prior group) (analysis.groupRoots group)
  recorded : ∀ dependency, dependency ∈ analysis.plan.dependencies ↔
    ∃ earlier later before current, analysis.prior[earlier]? = some before ∧
      analysis.prior[later]? = some current ∧
      Visible (conflictAt analysis.prior) (coversAt analysis.prior) earlier later ∧
      dependency = dependencyOf before current

theorem analyzed_start (resources : List Resource) : Analyzed (Analysis.start resources) where
  placed := by simp [Analysis.start]
  nodes := List.Pairwise.nil
  latest := by simp [Analysis.start]
  indexed := fun group => ⟨List.Perm.refl _, List.Pairwise.nil, trivial, trivial⟩
  recorded := by simp [Analysis.start]

section Extend

variable {prior : List PhysicalAccess} {current : PhysicalAccess} {earlier later : Nat}

/-- The newest access is looked at with the earlier ones. -/
theorem visible_last (hearlier : earlier < prior.length) {before : PhysicalAccess}
    (hbefore : prior[earlier]? = some before) {order : List Nat}
    (horder : ∀ place before, prior[place]? = some before → Conflicts before current →
      place ∈ order) :
    Visible (conflictAt (prior ++ [current])) (coversAt (prior ++ [current])) earlier prior.length ↔
      Reached prior current order earlier before := by
  have hlast : (prior ++ [current])[prior.length]? = some current := by simp
  have hat : ∀ place < prior.length, ∀ access, prior[place]? = some access →
      (prior ++ [current])[place]? = some access := fun place hplace access h => by
    rw [List.getElem?_append_left hplace, h]
  constructor
  · rintro ⟨-, ⟨access, last, haccess, hlast', hconflicts⟩, hreached⟩
    rw [hat earlier hearlier before hbefore] at haccess
    rw [hlast] at hlast'
    obtain rfl := Option.some.inj haccess
    obtain rfl := Option.some.inj hlast'
    refine ⟨hbefore, hconflicts, ?_⟩
    rintro newer - hlt middle hmiddle ⟨hconflict, hcovers⟩
    have hnewer : newer < prior.length := (List.getElem?_eq_some_iff.mp hmiddle).1
    exact hreached newer hlt hnewer ⟨⟨middle, current, hat newer hnewer middle hmiddle, hlast,
      hconflict⟩, ⟨middle, current, hat newer hnewer middle hmiddle, hlast, hcovers⟩⟩
  · rintro ⟨-, hconflicts, hnone⟩
    refine ⟨hearlier, ⟨before, current, hat earlier hearlier before hbefore, hlast, hconflicts⟩, ?_⟩
    rintro newer hlt hnewer ⟨⟨middle, last, hmiddle, hlast', hconflict⟩,
      ⟨middle', last', hmiddle', hlast'', hcovers⟩⟩
    rw [hlast] at hlast' hlast''
    obtain rfl := Option.some.inj hlast'
    obtain rfl := Option.some.inj hlast''
    rw [hmiddle] at hmiddle'
    obtain rfl := Option.some.inj hmiddle'
    rw [List.getElem?_append_left hnewer] at hmiddle
    exact hnone newer (horder newer middle hmiddle hconflict) hlt middle hmiddle
      ⟨hconflict, hcovers⟩

/-- Overlaps are among the accesses of a group whose envelopes meet. -/
theorem near_of_overlap {before : PhysicalAccess} {index : Nat}
    (h : (findOverlap before current).isSome) :
    before.aliasGroup = current.aliasGroup ∧
      (before.entry index).meets current.offset current.envelopeEnd = true := by
  unfold findOverlap at h
  split at h
  · exact absurd h (by simp)
  · rename_i hnear
    rw [not_or, not_not, not_or] at hnear
    refine ⟨hnear.1, ?_⟩
    rw [Entry.meets_iff, not_or]
    exact ⟨hnear.2.2, hnear.2.1⟩

/-- Two accesses that are there already are what they were. -/
theorem conflictAt_concat (hlater : later < prior.length) (hlt : earlier < later) :
    conflictAt (prior ++ [current]) earlier later ↔ conflictAt prior earlier later := by
  rw [conflictAt, conflictAt, List.getElem?_append_left hlater,
    List.getElem?_append_left (Nat.lt_trans hlt hlater)]

theorem coversAt_concat (hlater : later < prior.length) (hlt : earlier < later) :
    coversAt (prior ++ [current]) earlier later ↔ coversAt prior earlier later := by
  rw [coversAt, coversAt, List.getElem?_append_left hlater,
    List.getElem?_append_left (Nat.lt_trans hlt hlater)]

theorem visible_concat (hlater : later < prior.length) :
    Visible (conflictAt (prior ++ [current])) (coversAt (prior ++ [current])) earlier later ↔
      Visible (conflictAt prior) (coversAt prior) earlier later := by
  constructor
  · rintro ⟨hlt, hconflict, hreached⟩
    refine ⟨hlt, (conflictAt_concat hlater hlt).mp hconflict, ?_⟩
    rintro middle hearlier hmiddle ⟨hconflict', hcovers⟩
    exact hreached middle hearlier hmiddle
      ⟨(conflictAt_concat hlater hmiddle).mpr hconflict',
        (coversAt_concat hlater hmiddle).mpr hcovers⟩
  · rintro ⟨hlt, hconflict, hreached⟩
    refine ⟨hlt, (conflictAt_concat hlater hlt).mpr hconflict, ?_⟩
    rintro middle hearlier hmiddle ⟨hconflict', hcovers⟩
    exact hreached middle hearlier hmiddle
      ⟨(conflictAt_concat hlater hmiddle).mp hconflict',
        (coversAt_concat hlater hmiddle).mp hcovers⟩

end Extend

/-- An accepted access keeps what the analysis is. -/
theorem Analyzed.accept {analysis : Analysis} (h : Analyzed analysis) {current : PhysicalAccess}
    (hplaced : current.Placed)
    (hnode : (analysis.previousNode.getD 0).toNat ≤ current.access.node.toNat) :
    Analyzed (analysis.accept current) := by
  obtain ⟨order, hdecreasing, horder, hvisit⟩ :=
    (h.indexed current.aliasGroup).exists_order (nodup_groupEntries _ _) current.offset
      current.envelopeEnd
  have hplaces : ∀ place ∈ order, place < analysis.prior.length := by
    intro place hplace
    obtain ⟨entry, hentry, rfl, -⟩ := (horder place).mp hplace
    obtain ⟨access, index, haccess, -, rfl⟩ := mem_groupEntries.mp hentry
    exact (List.getElem?_eq_some_iff.mp haccess).1
  have hconflicts : ∀ place before, analysis.prior[place]? = some before →
      Conflicts before current → place ∈ order := by
    intro place before hbefore hconflict
    obtain ⟨hgroup, hmeets⟩ := @near_of_overlap current before place hconflict.1
    exact (horder place).mpr ⟨before.entry place,
      mem_groupEntries.mpr ⟨before, place, hbefore, hgroup, rfl⟩, rfl, hmeets⟩
  refine ⟨?_, ?_, ?_, ?_, ?_⟩
  · intro access haccess
    rcases List.mem_append.mp haccess with haccess | haccess
    · exact h.placed access haccess
    · rw [List.mem_singleton.mp haccess]
      exact hplaced
  · show (analysis.prior ++ [current]).Pairwise _
    rw [List.pairwise_append]
    refine ⟨h.nodes, List.pairwise_singleton _ _, ?_⟩
    intro before hbefore access haccess
    rw [List.mem_singleton.mp haccess]
    exact Nat.le_trans (h.latest before hbefore) hnode
  · intro access haccess
    show access.access.node.toNat ≤ current.access.node.toNat
    rcases List.mem_append.mp haccess with haccess | haccess
    · exact Nat.le_trans (h.latest access haccess) hnode
    · rw [List.mem_singleton.mp haccess]
  · intro group
    show WellFormed (groupEntries (analysis.prior ++ [current]) group)
      (if group = current.aliasGroup then _ else _)
    rw [groupEntries_concat]
    by_cases hgroup : group = current.aliasGroup
    · rw [if_pos hgroup, if_pos hgroup, hgroup]
      refine (h.indexed current.aliasGroup).insertAccess _ ?_
      intro entry hentry hsame
      obtain ⟨access, index, haccess, -, rfl⟩ := mem_groupEntries.mp hentry
      have hindex := (List.getElem?_eq_some_iff.mp haccess).1
      have hlast : analysis.prior.length = index := hsame
      omega
    · rw [if_neg hgroup, if_neg hgroup]
      exact h.indexed group
  · intro dependency
    show dependency ∈ Plan.dependencies (visitCandidates _ _ _ _ _) ↔
      ∃ earlier later before access, (analysis.prior ++ [current])[earlier]? = some before ∧
        (analysis.prior ++ [current])[later]? = some access ∧ _
    rw [hvisit, mem_visitUntil hdecreasing hplaces]
    show dependency ∈ analysis.plan.dependencies ∨ _ ↔ _
    rw [h.recorded dependency]
    constructor
    · rintro (⟨earlier, later, before, access, hbefore, haccess, hvisible, hsame⟩ |
        ⟨earlier, hearlier, before, hreached, hsame⟩)
      · have hlater := (List.getElem?_eq_some_iff.mp haccess).1
        refine ⟨earlier, later, before, access, ?_, ?_, (visible_concat hlater).mpr hvisible, hsame⟩
        · rw [List.getElem?_append_left (Nat.lt_trans hvisible.before hlater), hbefore]
        · rw [List.getElem?_append_left hlater, haccess]
      · have hlt := hplaces earlier hearlier
        refine ⟨earlier, analysis.prior.length, before, current, ?_, by simp, ?_, hsame⟩
        · rw [List.getElem?_append_left hlt, hreached.1]
        · exact (visible_last hlt hreached.1 hconflicts).mpr hreached
    · rintro ⟨earlier, later, before, access, hbefore, haccess, hvisible, hsame⟩
      have hlater := (List.getElem?_eq_some_iff.mp haccess).1
      rw [List.length_append, List.length_singleton] at hlater
      by_cases hlast : later = analysis.prior.length
      · right
        subst hlast
        have hearlier := hvisible.before
        rw [List.getElem?_append_left hearlier] at hbefore
        rw [List.getElem?_concat_length] at haccess
        obtain rfl := Option.some.inj haccess
        have hreached := (visible_last hearlier hbefore hconflicts).mp hvisible
        exact ⟨earlier, hconflicts earlier before hbefore hreached.2.1, before, hreached, hsame⟩
      · left
        have hlt : later < analysis.prior.length := by omega
        rw [List.getElem?_append_left (Nat.lt_trans hvisible.before hlt)] at hbefore
        rw [List.getElem?_append_left hlt] at haccess
        exact ⟨earlier, later, before, access, hbefore, haccess, (visible_concat hlt).mp hvisible,
          hsame⟩

/-- What one access of the stream does. -/
theorem analyzeAccess_ok {resources : List Resource} {nodeCount : UInt32} {analysis next : Analysis}
    {access : Access} (h : analyzeAccess resources nodeCount analysis access = Except.ok next) :
    ∃ current, placeOf resources access = some current ∧ current.access = access ∧
      current.Placed ∧ (analysis.previousNode.getD 0).toNat ≤ access.node.toNat ∧
      next = analysis.accept current := by
  unfold analyzeAccess at h
  cases hresource : findResource resources access.resource with
  | none =>
      rw [hresource] at h
      exact absurd h (by simp)
  | some resource =>
      rw [hresource] at h
      simp only at h
      split at h
      · exact absurd h (by simp)
      · rename_i hnode
        rw [not_or, UInt32.not_lt, UInt32.le_iff_toNat_le] at hnode
        cases hphysical : physicalAccess resource access with
        | error reason =>
            rw [hphysical] at h
            exact absurd h (by simp)
        | ok current =>
            rw [hphysical] at h
            obtain ⟨hplaced, haccess, -⟩ := physicalAccess_spec hphysical
            refine ⟨current, ?_, haccess, hplaced, hnode.2, (Except.ok.inj h).symm⟩
            rw [placeOf, hresource]
            simp only [hphysical]
            rfl

theorem analyzeAll_ok {resources : List Resource} {nodeCount : UInt32} {accesses : List Access}
    {analysis last : Analysis} (hanalyzed : Analyzed analysis)
    (h : analyzeAll resources nodeCount accesses analysis = Except.ok last) :
    Analyzed last ∧
      last.prior.map some = analysis.prior.map some ++ accesses.map (placeOf resources) := by
  induction accesses generalizing analysis with
  | nil =>
      obtain rfl := Except.ok.inj h
      exact ⟨hanalyzed, by simp⟩
  | cons access accesses ih =>
      rw [analyzeAll] at h
      cases hstep : analyzeAccess resources nodeCount analysis access with
      | error reason =>
          rw [hstep] at h
          exact absurd h (by simp)
      | ok next =>
          rw [hstep] at h
          obtain ⟨current, hplace, haccess, hplaced, hnode, rfl⟩ := analyzeAccess_ok hstep
          rw [← haccess] at hnode
          obtain ⟨hlast, hprior⟩ := ih (hanalyzed.accept hplaced hnode) h
          refine ⟨hlast, ?_⟩
          rw [hprior, List.map_cons, hplace]
          simp [Analysis.accept]

/-- The plan of an accepted stream is that of its placed accesses. -/
theorem analyze_ok {resources : List Resource} {accesses : List Access} {nodeCount : UInt32}
    {plan : Plan} (h : analyze resources accesses nodeCount = Except.ok plan) :
    ∃ analysis, Analyzed analysis ∧ analysis.plan = plan ∧
      analysis.prior = placedAll resources accesses ∧
      analysis.prior.map some = accesses.map (placeOf resources) := by
  unfold analyze at h
  split at h
  · exact absurd h (by simp)
  · split at h
    · exact absurd h (by simp)
    · cases hall : analyzeAll resources nodeCount accesses (Analysis.start resources) with
      | error reason =>
          rw [hall] at h
          exact absurd h (by simp)
      | ok analysis =>
          rw [hall] at h
          obtain ⟨hanalyzed, hprior⟩ := analyzeAll_ok (analyzed_start resources) hall
          have hsome : analysis.prior.map some = accesses.map (placeOf resources) := by
            rw [hprior]
            rfl
          refine ⟨analysis, hanalyzed, Except.ok.inj h, ?_, hsome⟩
          have hkept := congrArg (List.filterMap id) hsome
          rw [List.filterMap_map, List.filterMap_map] at hkept
          simpa [placedAll] using hkept

/-! ### Conflicts of a stream -/

/-- Two accesses of different nodes, not both reads, share a byte of an alias group. -/
def Conflicting (resources : List Resource) (before current : Access) : Prop :=
  before.node ≠ current.node ∧ ¬ (before.mode = .read ∧ current.mode = .read) ∧
    ∃ first second, findResource resources before.resource = some first ∧
      findResource resources current.resource = some second ∧
      first.aliasGroup = second.aliasGroup ∧
      ∃ byte, before.Touches first byte ∧ current.Touches second byte

/-- A dependency of a plan, by the numbers of its nodes. -/
def Plan.Depends (plan : Plan) (first second : Nat) : Prop :=
  ∃ dependency ∈ plan.dependencies,
    dependency.beforeNode.toNat = first ∧ dependency.afterNode.toNat = second

/-- A plan orders the conflicts of a stream: all of them, and nothing else. -/
def Orders (resources : List Resource) (accesses : List Access) (plan : Plan) : Prop :=
  (∀ (earlier later : Nat) (before current : Access), earlier < later → accesses[earlier]? = some before →
    accesses[later]? = some current → Conflicting resources before current →
    TransGen plan.Depends before.node.toNat current.node.toNat) ∧
  ∀ dependency ∈ plan.dependencies, dependency.beforeNode < dependency.afterNode ∧
    ∃ (earlier later : Nat) (before current : Access), earlier < later ∧
      accesses[earlier]? = some before ∧ accesses[later]? = some current ∧
      Conflicting resources before current ∧
      dependency = { beforeNode := before.node, afterNode := current.node }

/-- A read that conflicts with a later write and is not looked back to, because a newer read of
another node covers the write. -/
structure HiddenRead (prior : List PhysicalAccess) (earlier later : Nat) : Prop where
  before : earlier < later
  conflicts : conflictAt prior earlier later
  reads : ∀ access, prior[earlier]? = some access → access.access.mode = .read
  behind : ∃ middle, earlier < middle ∧ Visible (conflictAt prior) (coversAt prior) middle later ∧
    coversAt prior middle later ∧ nodeAt prior middle ≠ nodeAt prior earlier ∧
    ∀ access, prior[middle]? = some access → access.access.mode = .read

/-- The nodes of a conflict that is not such a read's. -/
def OpenConflict (prior : List PhysicalAccess) (first second : Nat) : Prop :=
  ∃ earlier later, earlier < later ∧ conflictAt prior earlier later ∧
    ¬ HiddenRead prior earlier later ∧ nodeAt prior earlier = first ∧ nodeAt prior later = second

/-- What a placed access is. -/
theorem placeOf_spec {resources : List Resource} {access : Access} {placed : PhysicalAccess}
    (h : placeOf resources access = some placed) :
    placed.Placed ∧ placed.access = access ∧
      ∃ resource, findResource resources access.resource = some resource ∧
        placed.aliasGroup = resource.aliasGroup ∧
        ∀ byte, placed.Touches byte ↔ access.Touches resource byte := by
  unfold placeOf at h
  cases hresource : findResource resources access.resource with
  | none =>
      rw [hresource] at h
      exact absurd h (by simp)
  | some resource =>
      rw [hresource] at h
      simp only at h
      cases hphysical : physicalAccess resource access with
      | error reason =>
          rw [hphysical] at h
          exact absurd h (by simp [Except.toOption])
      | ok current =>
          rw [hphysical] at h
          obtain rfl := Option.some.inj h
          obtain ⟨hplaced, haccess, hgroup, htouches⟩ := physicalAccess_spec hphysical
          exact ⟨hplaced, haccess, resource, rfl, hgroup, htouches⟩

theorem ordersModes_iff {before current : PhysicalAccess} :
    ordersModes before current = true ↔ before.access.node ≠ current.access.node ∧
      ¬ (before.access.mode = .read ∧ current.access.mode = .read) := by
  rw [ordersModes, Bool.and_eq_true, bne_iff_ne, Bool.not_eq_true', Bool.and_eq_false_iff,
    beq_eq_false_iff_ne, beq_eq_false_iff_ne, not_and_or]

theorem nodeAt_eq {prior : List PhysicalAccess} {index : Nat} {access : PhysicalAccess}
    (h : prior[index]? = some access) : nodeAt prior index = access.access.node.toNat := by
  rw [nodeAt, h]
  rfl

section Placed

variable {prior : List PhysicalAccess} (hplaced : ∀ access ∈ prior, access.Placed)

include hplaced

/-- A conflict that is hidden is a read behind another read. -/
theorem hidden_iff {earlier later : Nat} :
    Hidden (nodeAt prior) (conflictAt prior) (coversAt prior) earlier later ↔
      HiddenRead prior earlier later := by
  constructor
  · rintro ⟨hlt, hconflict, middle, hmiddle, hvisible, hcovers, hnode, hnone⟩
    obtain ⟨before, current, hbefore, hcurrent, hoverlap, hmodes⟩ := hconflict
    obtain ⟨cover, current', hcover, hcurrent', overlap, hfound, hwhole⟩ := hcovers
    rw [hcurrent] at hcurrent'
    obtain rfl := Option.some.inj hcurrent'
    have hplacedBefore := hplaced before (List.mem_of_getElem? hbefore)
    have hplacedCurrent := hplaced current (List.mem_of_getElem? hcurrent)
    have hplacedCover := hplaced cover (List.mem_of_getElem? hcover)
    -- the covering access has the bytes that the two share
    rw [findOverlap_isSome_iff hplacedBefore hplacedCurrent] at hoverlap
    obtain ⟨hgroup, byte, htouches, htouches'⟩ := hoverlap
    rw [coversWhole, Bool.and_eq_true, beq_iff_eq, beq_iff_eq] at hwhole
    have hshared := touches_of_whole hplacedCover hplacedCurrent hfound hwhole.1 hwhole.2 htouches'
    have hgroup' := (@near_of_overlap current cover 0 (by rw [hfound]; rfl)).1
    have hmeets : (findOverlap before cover).isSome :=
      (findOverlap_isSome_iff hplacedBefore hplacedCover).mpr
        ⟨hgroup.trans hgroup'.symm, byte, htouches, hshared⟩
    have hreads : before.access.mode = .read ∧ cover.access.mode = .read := by
      by_contra hwrites
      apply hnone
      refine ⟨before, cover, hbefore, hcover, hmeets, ordersModes_iff.mpr ⟨?_, hwrites⟩⟩
      intro hsame
      rw [nodeAt_eq hcover, nodeAt_eq hbefore, hsame] at hnode
      exact hnode rfl
    refine ⟨hlt, ⟨before, current, hbefore, hcurrent, ?_, hmodes⟩, ?_, middle, hmiddle, hvisible,
      ⟨cover, current, hcover, hcurrent, overlap, hfound, ?_⟩, hnode, ?_⟩
    · exact (findOverlap_isSome_iff hplacedBefore hplacedCurrent).mpr
        ⟨hgroup, byte, htouches, htouches'⟩
    · intro access haccess
      rw [hbefore] at haccess
      obtain rfl := Option.some.inj haccess
      exact hreads.1
    · rw [coversWhole, Bool.and_eq_true, beq_iff_eq, beq_iff_eq]
      exact hwhole
    · intro access haccess
      rw [hcover] at haccess
      obtain rfl := Option.some.inj haccess
      exact hreads.2
  · rintro ⟨hlt, hconflict, hreads, middle, hmiddle, hvisible, hcovers, hnode, hreads'⟩
    refine ⟨hlt, hconflict, middle, hmiddle, hvisible, hcovers, hnode, ?_⟩
    rintro ⟨before, cover, hbefore, hcover, -, hmodes⟩
    exact (ordersModes_iff.mp hmodes).2 ⟨hreads before hbefore, hreads' cover hcover⟩

end Placed

/-- The conflicts of placed accesses are those of their footprints. -/
theorem conflicts_iff {resources : List Resource} {before current : Access}
    {first second : PhysicalAccess} (hfirst : placeOf resources before = some first)
    (hsecond : placeOf resources current = some second) :
    Conflicts first second ↔ Conflicting resources before current := by
  obtain ⟨hplaced, rfl, resource, hresource, hgroup, htouches⟩ := placeOf_spec hfirst
  obtain ⟨hplaced', rfl, resource', hresource', hgroup', htouches'⟩ := placeOf_spec hsecond
  rw [Conflicts, Conflicting, findOverlap_isSome_iff hplaced hplaced', ordersModes_iff]
  constructor
  · rintro ⟨⟨hsame, byte, hbyte, hbyte'⟩, hnode, hmodes⟩
    rw [hgroup, hgroup'] at hsame
    exact ⟨hnode, hmodes, resource, resource', hresource, hresource', hsame, byte,
      (htouches byte).mp hbyte, (htouches' byte).mp hbyte'⟩
  · rintro ⟨hnode, hmodes, held, held', hheld, hheld', hsame, byte, hbyte, hbyte'⟩
    rw [hresource] at hheld
    rw [hresource'] at hheld'
    obtain rfl := Option.some.inj hheld
    obtain rfl := Option.some.inj hheld'
    refine ⟨⟨?_, byte, (htouches byte).mpr hbyte, (htouches' byte).mpr hbyte'⟩, hnode, hmodes⟩
    rw [hgroup, hgroup', hsame]

section Stream

variable {resources : List Resource} {accesses : List Access} {prior : List PhysicalAccess}
  (hprior : prior.map some = accesses.map (placeOf resources))

include hprior

theorem placed_at {index : Nat} {placed : PhysicalAccess} (h : prior[index]? = some placed) :
    ∃ access, accesses[index]? = some access ∧ placeOf resources access = some placed := by
  have hsame := congrArg (fun list => list[index]?) hprior
  simp only [List.getElem?_map, h, Option.map_some] at hsame
  obtain ⟨access, haccess, hplace⟩ := Option.map_eq_some_iff.mp hsame.symm
  exact ⟨access, haccess, hplace⟩

theorem access_at {index : Nat} {access : Access} (h : accesses[index]? = some access) :
    ∃ placed, prior[index]? = some placed ∧ placeOf resources access = some placed := by
  have hsame := congrArg (fun list => list[index]?) hprior
  simp only [List.getElem?_map, h, Option.map_some] at hsame
  obtain ⟨placed, hplaced, hplace⟩ := Option.map_eq_some_iff.mp hsame
  exact ⟨placed, hplaced, hplace.symm⟩

theorem conflictAt_iff {earlier later : Nat} {before current : Access}
    (hbefore : accesses[earlier]? = some before) (hcurrent : accesses[later]? = some current) :
    conflictAt prior earlier later ↔ Conflicting resources before current := by
  obtain ⟨first, hfirst, hplace⟩ := access_at hprior hbefore
  obtain ⟨second, hsecond, hplace'⟩ := access_at hprior hcurrent
  rw [← conflicts_iff hplace hplace', conflictAt]
  constructor
  · rintro ⟨first', second', hfirst', hsecond', hconflicts⟩
    rw [hfirst] at hfirst'
    rw [hsecond] at hsecond'
    obtain rfl := Option.some.inj hfirst'
    obtain rfl := Option.some.inj hsecond'
    exact hconflicts
  · exact fun hconflicts => ⟨first, second, hfirst, hsecond, hconflicts⟩

theorem nodeAt_access {index : Nat} {access : Access} (h : accesses[index]? = some access) :
    nodeAt prior index = access.node.toNat := by
  obtain ⟨placed, hplaced, hplace⟩ := access_at hprior h
  obtain ⟨-, rfl, -⟩ := placeOf_spec hplace
  exact nodeAt_eq hplaced

end Stream

/-- Conflicts go from a node to a later one. -/
theorem Analyzed.node_lt {analysis : Analysis} (h : Analyzed analysis) {earlier later : Nat}
    (hlt : earlier < later) (hconflict : conflictAt analysis.prior earlier later) :
    nodeAt analysis.prior earlier < nodeAt analysis.prior later := by
  obtain ⟨before, current, hbefore, hcurrent, -, hmodes⟩ := hconflict
  rw [nodeAt_eq hbefore, nodeAt_eq hcurrent]
  have hne := (ordersModes_iff.mp hmodes).1
  rw [← UInt32.toNat_inj.ne] at hne
  obtain ⟨hbound, rfl⟩ := List.getElem?_eq_some_iff.mp hbefore
  obtain ⟨hbound', rfl⟩ := List.getElem?_eq_some_iff.mp hcurrent
  have hle := List.pairwise_iff_getElem.mp h.nodes earlier later hbound hbound' hlt
  omega

/-- The dependencies are what is recorded. -/
theorem Analyzed.depends_iff {analysis : Analysis} (h : Analyzed analysis) {first second : Nat} :
    analysis.plan.Depends first second ↔
      Recorded (nodeAt analysis.prior) (conflictAt analysis.prior) (coversAt analysis.prior)
        first second := by
  constructor
  · rintro ⟨dependency, hdependency, rfl, rfl⟩
    obtain ⟨earlier, later, before, current, hbefore, hcurrent, hvisible, rfl⟩ :=
      (h.recorded dependency).mp hdependency
    exact ⟨earlier, later, hvisible, nodeAt_eq hbefore, nodeAt_eq hcurrent⟩
  · rintro ⟨earlier, later, hvisible, rfl, rfl⟩
    obtain ⟨before, current, hbefore, hcurrent, -⟩ := hvisible.conflicts
    refine ⟨dependencyOf before current, ?_, (nodeAt_eq hbefore).symm, (nodeAt_eq hcurrent).symm⟩
    exact (h.recorded _).mpr ⟨earlier, later, before, current, hbefore, hcurrent, hvisible, rfl⟩

/-- **A plan orders the conflicts of an accepted stream exactly when every hidden read is ordered
before its write by the conflicts that are not hidden.** -/
theorem analyze_orders_iff {resources : List Resource} {accesses : List Access}
    {nodeCount : UInt32} {plan : Plan}
    (h : analyze resources accesses nodeCount = Except.ok plan) :
    Orders resources accesses plan ↔
      ∀ earlier later, HiddenRead (placedAll resources accesses) earlier later →
        TransGen (OpenConflict (placedAll resources accesses))
          (nodeAt (placedAll resources accesses) earlier)
          (nodeAt (placedAll resources accesses) later) := by
  obtain ⟨analysis, hanalyzed, rfl, hplacedAll, hprior⟩ := analyze_ok h
  rw [← hplacedAll]
  have hhidden : ∀ earlier later, Hidden (nodeAt analysis.prior) (conflictAt analysis.prior)
      (coversAt analysis.prior) earlier later ↔ HiddenRead analysis.prior earlier later :=
    fun earlier later => hidden_iff hanalyzed.placed
  have hstanding : Standing (nodeAt analysis.prior) (conflictAt analysis.prior)
      (coversAt analysis.prior) = OpenConflict analysis.prior := by
    funext first second
    simp only [Standing, OpenConflict, hhidden]
  have hreaches := @reaches_iff (nodeAt analysis.prior) (conflictAt analysis.prior)
    (coversAt analysis.prior) hanalyzed.node_lt
  rw [hstanding] at hreaches
  simp only [hhidden] at hreaches
  rw [← hreaches]
  have hdepends : analysis.plan.Depends = Recorded (nodeAt analysis.prior)
      (conflictAt analysis.prior) (coversAt analysis.prior) := by
    funext first second
    exact propext hanalyzed.depends_iff
  rw [Orders, hdepends]
  constructor
  · rintro ⟨hall, -⟩ earlier later hlt hconflict
    obtain ⟨first, second, hfirst, hsecond, hconflicts⟩ := hconflict
    obtain ⟨before, hbefore, hplace⟩ := placed_at hprior hfirst
    obtain ⟨current, hcurrent, hplace'⟩ := placed_at hprior hsecond
    rw [nodeAt_access hprior hbefore, nodeAt_access hprior hcurrent]
    exact hall earlier later before current hlt hbefore hcurrent
      ((conflicts_iff hplace hplace').mp hconflicts)
  · intro hall
    constructor
    · intro earlier later before current hlt hbefore hcurrent hconflicting
      rw [← nodeAt_access hprior hbefore, ← nodeAt_access hprior hcurrent]
      exact hall earlier later hlt ((conflictAt_iff hprior hbefore hcurrent).mpr hconflicting)
    · intro dependency hdependency
      obtain ⟨earlier, later, first, second, hfirst, hsecond, hvisible, rfl⟩ :=
        (hanalyzed.recorded dependency).mp hdependency
      obtain ⟨before, hbefore, hplace⟩ := placed_at hprior hfirst
      obtain ⟨current, hcurrent, hplace'⟩ := placed_at hprior hsecond
      have hlt := hanalyzed.node_lt hvisible.before hvisible.conflicts
      rw [nodeAt_eq hfirst, nodeAt_eq hsecond] at hlt
      refine ⟨UInt32.lt_iff_toNat_lt.mpr hlt, earlier, later, before, current, hvisible.before,
        hbefore, hcurrent, (conflictAt_iff hprior hbefore hcurrent).mp hvisible.conflicts, ?_⟩
      obtain ⟨-, rfl, -⟩ := placeOf_spec hplace
      obtain ⟨-, rfl, -⟩ := placeOf_spec hplace'
      rfl

/-- A resource of one alias group. -/
def soleResource : Resource := { id := 1, bytes := 64, aliasGroup := 7, aliasOffsetBytes := 0 }

/-- An access to its first bytes. -/
def soleAccess (node : UInt32) (mode : AccessMode) : Access where
  node := node
  resource := 1
  mode := mode
  offsetBytes := 0
  sizeBytes := 8
  elementBytes := 0
  elementCount := 0
  strideBytes := 0

/-- Two writes of the same bytes are ordered. -/
theorem analyze_orders_twoWrites :
    Orders [soleResource] [soleAccess 0 .write, soleAccess 1 .write]
      { lifetimes := [{ firstUse := 0, lastUse := 1 }]
        dependencies := [{ beforeNode := 0, afterNode := 1 }]
        barriers := [⟨7, 1, 1, 0, 8, 0, 1, 8, 1, 0, 1, 8, 1, 0, 1, .write, .write⟩] } := by
  have hok : analyze [soleResource] [soleAccess 0 .write, soleAccess 1 .write] 2 = Except.ok
      { lifetimes := [{ firstUse := 0, lastUse := 1 }]
        dependencies := [{ beforeNode := 0, afterNode := 1 }]
        barriers := [⟨7, 1, 1, 0, 8, 0, 1, 8, 1, 0, 1, 8, 1, 0, 1, .write, .write⟩] } := by
    decide
  refine (analyze_orders_iff hok).mpr ?_
  rintro earlier later ⟨-, ⟨before, -, hbefore, -⟩, hreads, -⟩
  have hwrites : ∀ access ∈ placedAll [soleResource] [soleAccess 0 .write, soleAccess 1 .write],
      access.access.mode = .write := by decide
  have hread := hreads before hbefore
  rw [hwrites before (List.mem_of_getElem? hbefore)] at hread
  exact absurd hread (by decide)

/-- Two nodes read the same bytes and a third writes them: only the second read is ordered. -/
theorem analyze_orders_not :
    ∃ plan, analyze [soleResource] [soleAccess 0 .read, soleAccess 1 .read, soleAccess 2 .write] 3 =
        Except.ok plan ∧
      ¬ Orders [soleResource] [soleAccess 0 .read, soleAccess 1 .read, soleAccess 2 .write]
        plan := by
  refine ⟨{ lifetimes := [{ firstUse := 0, lastUse := 2 }]
            dependencies := [{ beforeNode := 1, afterNode := 2 }]
            barriers := [⟨7, 1, 1, 0, 8, 0, 1, 8, 1, 0, 1, 8, 1, 1, 2, .read, .write⟩] },
    by decide, ?_⟩
  rintro ⟨hall, -⟩
  have hconflicting : Conflicting [soleResource] (soleAccess 0 .read) (soleAccess 2 .write) := by
    refine ⟨by decide, by decide, soleResource, soleResource, rfl, rfl, rfl, 0, ?_, ?_⟩
    · exact ⟨Nat.le_refl _, by decide⟩
    · exact ⟨Nat.le_refl _, by decide⟩
  have hchain := hall 0 2 (soleAccess 0 .read) (soleAccess 2 .write) (by decide) rfl rfl hconflicting
  -- no dependency starts at the first node
  obtain ⟨next, hstep, -⟩ := TransGen.head'_iff.mp hchain
  obtain ⟨dependency, hdependency, hfirst, -⟩ := hstep
  rw [List.mem_singleton] at hdependency
  rw [hdependency] at hfirst
  exact absurd hfirst (by decide)

end RunD.Hazard
