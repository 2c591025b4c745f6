/-
The reader counts of the fusion planner are what they should be.

A version of a buffer is read by the nodes behind its writer, up to and
including the next node that writes the buffer: `versionReads` counts them
from the definition.  `BuildReaderFacts` counts them for all candidates at
once.  The sweep keeps two things true: every fact holds the reads of its
version among the nodes seen so far, and the first fact of a buffer points to
the candidate whose version the buffer currently has, if that is one.
-/
import RunD.FusionPlan

namespace RunD

/-! ### What the facts should say -/

/-- The reads of a buffer from here on, up to and including the next node that writes it. -/
def versionReads (id : UInt64) : List GraphNode → Nat
  | [] => 0
  | node :: rest => node.readCount id + if node.writesTo id then 0 else versionReads id rest

/-- The version of the buffer that the node numbered `writer` wrote is the one the buffer has
after `seen`. -/
def isCurrent (seen : List GraphNode) (id : UInt64) (writer : Nat) : Bool :=
  seen[writer]?.any (·.writesTo id) && !(seen.drop (writer + 1)).any (·.writesTo id)

/-- What the order of the facts and all searches look at. -/
def ReaderFact.key (fact : ReaderFact) : UInt64 × Nat := (fact.logicalId, fact.writer)

/-- The facts are sorted by buffer and writer, without repetition. -/
def FactsSorted (facts : List ReaderFact) : Prop :=
  ∀ (i j : Nat) (f g : ReaderFact), i < j → facts[i]? = some f → facts[j]? = some g →
    f.logicalId < g.logicalId ∨ f.logicalId = g.logicalId ∧ f.writer < g.writer

/-- The first fact of every buffer points to its current candidate. -/
def ActiveIs (current : UInt64 → Nat → Bool) (facts : List ReaderFact) : Prop :=
  ∀ id first f, firstOf facts id = some first → facts[first]? = some f →
    ∀ j, f.active = some j ↔
      ∃ g, facts[j]? = some g ∧ g.logicalId = id ∧ current id g.writer = true

/-- The fact after `n` reads of its version. -/
def ReaderFact.addReaders (fact : ReaderFact) (n : Nat) : ReaderFact :=
  { fact with readers := fact.readers + n }

/-- What holds of the facts after the nodes `seen`. -/
structure Counted (seen : List GraphNode) (facts : List ReaderFact) : Prop where
  sorted : FactsSorted facts
  active : ActiveIs (isCurrent seen) facts
  readers : ∀ f ∈ facts, f.readers = versionReads f.logicalId (seen.drop (f.writer + 1))

/-! ### Versions -/

theorem versionReads_snoc (id : UInt64) (nodes : List GraphNode) (node : GraphNode) :
    versionReads id (nodes ++ [node]) =
      versionReads id nodes + if nodes.any (·.writesTo id) then 0 else node.readCount id := by
  induction nodes with
  | nil => simp [versionReads]
  | cons first rest ih =>
      simp only [List.cons_append, versionReads, ih, List.any_cons]
      by_cases hfirst : first.writesTo id = true
      · simp [hfirst]
      · simp [hfirst, Nat.add_assoc]

theorem readCount_eq (node : GraphNode) (id : UInt64) :
    node.readCount id = node.readIds.count id := by
  rw [GraphNode.readCount, GraphNode.readIds, List.count, List.countP_map, List.countP_filter]
  refine List.countP_congr fun buffer _ => ?_
  simp [GraphBufferRef.reads, and_comm]

theorem mem_writeIds {node : GraphNode} {id : UInt64} :
    id ∈ node.writeIds ↔ node.writesTo id = true := by
  simp [GraphNode.writeIds, GraphNode.writesTo, GraphBufferRef.writes, and_assoc]

theorem isCurrent_snoc (seen : List GraphNode) (node : GraphNode) (id : UInt64) (writer : Nat) :
    isCurrent (seen ++ [node]) id writer =
      if node.writesTo id then decide (writer = seen.length) else isCurrent seen id writer := by
  rcases Nat.lt_trichotomy writer seen.length with hlt | rfl | hgt
  · have hne : writer ≠ seen.length := Nat.ne_of_lt hlt
    rw [isCurrent, isCurrent, List.getElem?_append_left hlt,
      List.drop_append_of_le_length (by omega)]
    cases hnode : node.writesTo id <;> simp [hnode, hne]
  · rw [isCurrent, isCurrent, List.drop_eq_nil_of_le (by simp)]
    cases hnode : node.writesTo id <;> simp [hnode]
  · have hne : writer ≠ seen.length := Nat.ne_of_gt hgt
    rw [isCurrent, isCurrent, List.getElem?_eq_none (by simp; omega),
      List.getElem?_eq_none (by omega)]
    cases node.writesTo id <;> simp [hne]

/-! ### Searching the facts -/

theorem factAt_of_getElem? {facts : List ReaderFact} {i : Nat} {f : ReaderFact}
    (hf : facts[i]? = some f) (test : ReaderFact → Bool) : factAt facts test i = test f :=
  congrArg (Option.any test) hf

theorem factAt_iff {facts : List ReaderFact} {test : ReaderFact → Bool} {i : Nat} :
    factAt facts test i = true ↔ ∃ f, facts[i]? = some f ∧ test f = true :=
  Option.any_eq_true test facts[i]?

section Search

variable {facts : List ReaderFact} (hsorted : FactsSorted facts)
include hsorted

theorem factsSorted_id_le {i j : Nat} {f g : ReaderFact} (hij : i ≤ j) (hf : facts[i]? = some f)
    (hg : facts[j]? = some g) : f.logicalId ≤ g.logicalId := by
  rcases Nat.eq_or_lt_of_le hij with rfl | hlt
  · obtain rfl : f = g := by simpa [hf] using hg
    exact UInt64.le_refl _
  · rcases hsorted i j f g hlt hf hg with h | h
    · exact UInt64.le_of_lt h
    · rw [h.1]
      exact UInt64.le_refl _

theorem lowerBoundId_spec (id : UInt64) :
    PartitionPoint (factAt facts fun fact => fact.logicalId < id) 0 facts.length
      (lowerBoundId facts id) := by
  have h := @partitionPoint_spec (factAt facts fun fact => fact.logicalId < id) 0 facts.length
    fun i j _ hij hj hbelow => by
      obtain ⟨g, hg, hlt⟩ := factAt_iff.mp hbelow
      obtain ⟨f, hf⟩ : ∃ f, facts[i]? = some f := ⟨_, List.getElem?_eq_getElem (by omega)⟩
      refine factAt_iff.mpr ⟨f, hf, decide_eq_true ?_⟩
      exact UInt64.lt_of_le_of_lt (factsSorted_id_le hsorted hij hf hg) (of_decide_eq_true hlt)
  rwa [Nat.zero_add] at h

/-- The facts of a buffer start at `firstOf`. -/
theorem firstOf_eq_some {id : UInt64} {first : Nat} (h : firstOf facts id = some first) :
    (∃ f, facts[first]? = some f ∧ f.logicalId = id) ∧
      ∀ i f, facts[i]? = some f → f.logicalId = id → first ≤ i := by
  rw [firstOf] at h
  by_cases hat : factAt facts (fun fact => fact.logicalId == id) (lowerBoundId facts id) = true
  · obtain rfl : lowerBoundId facts id = first := by simpa [hat] using h
    obtain ⟨f, hf, hid⟩ := factAt_iff.mp hat
    refine ⟨⟨f, hf, by simpa using hid⟩, fun i g hg hgid => ?_⟩
    by_contra hlt
    have hbelow := (lowerBoundId_spec hsorted id).holds i (Nat.zero_le i) (by omega)
    obtain ⟨g', hg', hlt'⟩ := factAt_iff.mp hbelow
    obtain rfl : g = g' := by simpa [hg] using hg'
    exact absurd (of_decide_eq_true hlt') (hgid ▸ UInt64.lt_irrefl _)
  · exact absurd h (by simp [hat])

/-- A buffer with a fact has a first one. -/
theorem firstOf_isSome {id : UInt64} {i : Nat} {f : ReaderFact} (hf : facts[i]? = some f)
    (hid : f.logicalId = id) : ∃ first, firstOf facts id = some first := by
  have hspec := lowerBoundId_spec hsorted id
  have hi : i < facts.length := (List.getElem?_eq_some_iff.mp hf).1
  -- the partition point is not behind `i`, so the fact there has the same buffer
  have hle : lowerBoundId facts id ≤ i := by
    by_contra hlt
    obtain ⟨g, hg, hbelow⟩ := factAt_iff.mp (hspec.holds i (Nat.zero_le i) (by omega))
    obtain rfl : f = g := by simpa [hf] using hg
    exact absurd (of_decide_eq_true hbelow) (hid ▸ UInt64.lt_irrefl _)
  obtain ⟨g, hg⟩ : ∃ g, facts[lowerBoundId facts id]? = some g :=
    ⟨_, List.getElem?_eq_getElem (by omega)⟩
  have hnot : ¬ g.logicalId < id := by
    have hfalse := hspec.fails _ le_rfl (by omega)
    intro hlt
    rw [factAt_of_getElem? hg, decide_eq_true hlt] at hfalse
    exact absurd hfalse (by decide)
  have hgid : g.logicalId = id :=
    UInt64.le_antisymm (hid ▸ factsSorted_id_le hsorted hle hg hf) (UInt64.not_lt.mp hnot)
  exact ⟨lowerBoundId facts id, if_pos (factAt_iff.mpr ⟨g, hg, by simpa using hgid⟩)⟩

theorem upperBoundId_spec {id : UInt64} {first : Nat} (h : firstOf facts id = some first) :
    (∀ i f, first ≤ i → i < upperBoundId facts first id → facts[i]? = some f →
      f.logicalId = id) ∧
    (∀ i f, facts[i]? = some f → f.logicalId = id → i < upperBoundId facts first id) ∧
    first ≤ upperBoundId facts first id ∧ upperBoundId facts first id ≤ facts.length := by
  obtain ⟨⟨f₀, hf₀, hid₀⟩, hfirst⟩ := firstOf_eq_some hsorted h
  have hlt : first < facts.length := (List.getElem?_eq_some_iff.mp hf₀).1
  have hspec := @partitionPoint_spec (factAt facts fun fact => fact.logicalId ≤ id) first
    (facts.length - first) fun i j _ hij hj hbelow => by
      obtain ⟨g, hg, hle⟩ := factAt_iff.mp hbelow
      obtain ⟨f, hf⟩ : ∃ f, facts[i]? = some f := ⟨_, List.getElem?_eq_getElem (by omega)⟩
      refine factAt_iff.mpr ⟨f, hf, decide_eq_true ?_⟩
      exact UInt64.le_trans (factsSorted_id_le hsorted hij hf hg) (of_decide_eq_true hle)
  rw [show first + (facts.length - first) = facts.length by omega] at hspec
  refine ⟨fun i f hi hlast hf => ?_, fun i f hf hid => ?_, hspec.first_le, hspec.le_last⟩
  · obtain ⟨g, hg, hle⟩ := factAt_iff.mp (hspec.holds i hi hlast)
    obtain rfl : f = g := by simpa [hf] using hg
    exact UInt64.le_antisymm (of_decide_eq_true hle)
      (hid₀ ▸ factsSorted_id_le hsorted hi hf₀ hf)
  · by_contra hge
    have hi : i < facts.length := (List.getElem?_eq_some_iff.mp hf).1
    have hfalse := hspec.fails i (Nat.not_lt.mp hge) hi
    rw [factAt_of_getElem? hf, hid, decide_eq_true (UInt64.le_refl _)] at hfalse
    exact absurd hfalse (by decide)

/-- The search for a writer among the facts of a buffer finds its fact. -/
theorem findWriter_eq_some {id : UInt64} {first writer j : Nat}
    (h : firstOf facts id = some first) :
    findWriter facts first (upperBoundId facts first id) writer = some j ↔
      ∃ f, facts[j]? = some f ∧ f.logicalId = id ∧ f.writer = writer := by
  obtain ⟨hgroup, hinside, hle, hlast⟩ := upperBoundId_spec hsorted h
  obtain ⟨-, hfirst⟩ := firstOf_eq_some hsorted h
  set last := upperBoundId facts first id with hlastdef
  have hspec := @partitionPoint_spec (factAt facts fun fact => fact.writer < writer) first
    (last - first) fun i k hi hik hk hbelow => by
      obtain ⟨g, hg, hlt⟩ := factAt_iff.mp hbelow
      obtain ⟨f, hf⟩ : ∃ f, facts[i]? = some f := ⟨_, List.getElem?_eq_getElem (by omega)⟩
      have hlt' : g.writer < writer := of_decide_eq_true hlt
      refine factAt_iff.mpr ⟨f, hf, decide_eq_true ?_⟩
      rcases Nat.eq_or_lt_of_le hik with rfl | hik
      · obtain rfl : f = g := by simpa [hf] using hg
        exact hlt'
      · rcases hsorted i k f g hik hf hg with hid | hid
        · rw [hgroup i f hi (by omega) hf, hgroup k g (by omega) (by omega) hg] at hid
          exact absurd hid (UInt64.lt_irrefl _)
        · omega
  rw [show first + (last - first) = last by omega] at hspec
  rw [findWriter]
  constructor
  · intro hfound
    split at hfound
    · next hat =>
      rw [Option.some.injEq] at hfound
      subst hfound
      obtain ⟨f, hf, hw⟩ := factAt_iff.mp hat.2
      exact ⟨f, hf, hgroup _ f hspec.first_le hat.1 hf, by simpa using hw⟩
    · exact absurd hfound (by simp)
  · rintro ⟨f, hf, hid, hw⟩
    have hj : first ≤ j := hfirst j f hf hid
    have hjlast : j < last := hinside j f hf hid
    -- everything before `j` is below the writer, and `j` itself is not
    have hpoint : PartitionPoint (factAt facts fun fact => fact.writer < writer) first last j := by
      refine ⟨hj, hjlast.le, fun i hi hij => ?_, fun i hi hilast => ?_⟩
      · obtain ⟨g, hg⟩ : ∃ g, facts[i]? = some g := ⟨_, List.getElem?_eq_getElem (by omega)⟩
        refine factAt_iff.mpr ⟨g, hg, decide_eq_true ?_⟩
        rcases hsorted i j g f hij hg hf with h' | h'
        · rw [hid, hgroup i g hi (by omega) hg] at h'
          exact absurd h' (UInt64.lt_irrefl _)
        · omega
      · obtain ⟨g, hg⟩ : ∃ g, facts[i]? = some g := ⟨_, List.getElem?_eq_getElem (by omega)⟩
        rw [factAt_of_getElem? hg, decide_eq_false_iff_not]
        rcases Nat.eq_or_lt_of_le hi with rfl | hji
        · obtain rfl : f = g := by simpa [hf] using hg
          omega
        · rcases hsorted j i f g hji hf hg with h' | h'
          · rw [hid, hgroup i g (by omega) hilast hg] at h'
            exact absurd h' (UInt64.lt_irrefl _)
          · omega
    rw [hspec.unique hpoint, if_pos]
    exact ⟨hjlast, factAt_iff.mpr ⟨f, hf, by simpa using hw⟩⟩

end Search

/-! ### One step of the sweep -/

/-- Two lists of facts are searched alike when they have the same keys. -/
theorem factAt_congr {facts facts' : List ReaderFact}
    (hkeys : facts'.map ReaderFact.key = facts.map ReaderFact.key) (test : UInt64 × Nat → Bool) :
    factAt facts' (fun fact => test fact.key) = factAt facts fun fact => test fact.key := by
  have hat : ∀ (fs : List ReaderFact) i,
      factAt fs (fun fact => test fact.key) i = (fs.map ReaderFact.key)[i]?.any test := by
    intro fs i
    rw [List.getElem?_map, Option.any_map]
    rfl
  funext i
  rw [hat, hat, hkeys]

section SameKeys

variable {facts facts' : List ReaderFact}
  (hkeys : facts'.map ReaderFact.key = facts.map ReaderFact.key)
include hkeys

theorem firstOf_congr (id : UInt64) : firstOf facts' id = firstOf facts id := by
  have hlen : facts'.length = facts.length := by simpa using congrArg List.length hkeys
  have hbelow : (factAt facts' fun fact => fact.logicalId < id) =
      factAt facts fun fact => fact.logicalId < id := factAt_congr hkeys fun key => key.1 < id
  have hat : (factAt facts' fun fact => fact.logicalId == id) =
      factAt facts fun fact => fact.logicalId == id := factAt_congr hkeys fun key => key.1 == id
  rw [firstOf, firstOf, lowerBoundId, lowerBoundId, hbelow, hat, hlen]

theorem factsSorted_congr (h : FactsSorted facts) : FactsSorted facts' := by
  intro i j f' g' hij hf' hg'
  have hkey : ∀ {k : Nat} {x : ReaderFact}, facts'[k]? = some x →
      ∃ y, facts[k]? = some y ∧ y.key = x.key := by
    intro k x hx
    have := congrArg (·[k]?) hkeys
    simp only [List.getElem?_map, hx, Option.map_some] at this
    exact Option.map_eq_some_iff.mp this.symm
  obtain ⟨f, hf, hfk⟩ := hkey hf'
  obtain ⟨g, hg, hgk⟩ := hkey hg'
  simp only [ReaderFact.key, Prod.mk.injEq] at hfk hgk
  rw [← hfk.1, ← hfk.2, ← hgk.1, ← hgk.2]
  exact h i j f g hij hf hg

end SameKeys

/-- A map that changes nothing but the counts keeps the pointers right. -/
theorem ActiveIs.map_addReaders {current : UInt64 → Nat → Bool} {facts : List ReaderFact}
    (h : ActiveIs current facts) (n : ReaderFact → Nat) :
    ActiveIs current (facts.map fun f => f.addReaders (n f)) := by
  have hkeys : (facts.map fun f => f.addReaders (n f)).map ReaderFact.key =
      facts.map ReaderFact.key := by
    rw [List.map_map]
    rfl
  intro id first f' hfirst hf' j
  rw [firstOf_congr hkeys] at hfirst
  rw [List.getElem?_map] at hf'
  obtain ⟨f, hf, rfl⟩ := Option.map_eq_some_iff.mp hf'
  rw [show (f.addReaders (n f)).active = f.active from rfl, h id first f hfirst hf j,
    List.getElem?_map]
  constructor
  · rintro ⟨g, hg, hgid, hcurrent⟩
    exact ⟨g.addReaders (n g), by rw [hg]; rfl, hgid, hcurrent⟩
  · rintro ⟨g', hg', hgid, hcurrent⟩
    obtain ⟨g, hg, rfl⟩ := Option.map_eq_some_iff.mp hg'
    exact ⟨g, hg, hgid, hcurrent⟩

/-- A read counts for the current candidate of its buffer. -/
theorem countRead_eq {current : UInt64 → Nat → Bool} {facts : List ReaderFact}
    (hsorted : FactsSorted facts) (h : ActiveIs current facts) (id : UInt64) :
    countRead facts id = facts.map fun f =>
      f.addReaders (if f.logicalId = id ∧ current id f.writer then 1 else 0) := by
  have hnone : (∀ (j : Nat) (g : ReaderFact), facts[j]? = some g → g.logicalId = id →
      current id g.writer = false) →
      facts = facts.map fun f =>
        f.addReaders (if f.logicalId = id ∧ current id f.writer then 1 else 0) := by
    intro hno
    refine (List.map_id facts).symm.trans (List.map_congr_left fun f hmem => ?_)
    obtain ⟨j, hj⟩ := List.mem_iff_getElem?.mp hmem
    rw [if_neg fun hf => by simp [hno j f hj hf.1] at hf]
    rfl
  rw [countRead]
  rcases hfirst : firstOf facts id with - | first
  · refine hnone fun j g hg hid => ?_
    obtain ⟨first, hsome⟩ := firstOf_isSome hsorted hg hid
    rw [hfirst] at hsome
    exact absurd hsome (by simp)
  obtain ⟨⟨f₀, hf₀, -⟩, -⟩ := firstOf_eq_some hsorted hfirst
  have hactive := h id first f₀ hfirst hf₀
  rw [Option.bind_some, hf₀, Option.bind_some]
  rcases hj : f₀.active with - | j
  · refine hnone fun k g hg hid => ?_
    by_contra hcurrent
    have := (hactive k).mpr ⟨g, hg, hid, by simpa using hcurrent⟩
    rw [hj] at this
    exact absurd this (by simp)
  · obtain ⟨g, hg, hid, hcurrent⟩ := (hactive j).mp hj
    refine List.ext_getElem? fun i => ?_
    rw [List.getElem?_modify, List.getElem?_map]
    rcases hi : facts[i]? with - | f
    · rfl
    · by_cases hij : j = i
      · subst hij
        obtain rfl : g = f := by simpa [hg] using hi
        simp [hid, hcurrent, ReaderFact.addReaders]
      · -- another current fact of the buffer would be the active one as well
        have hother : ¬ (f.logicalId = id ∧ current id f.writer = true) := by
          intro hf
          have := (hactive i).mpr ⟨f, hi, hf.1, hf.2⟩
          rw [hj, Option.some.injEq] at this
          exact hij this
        simp [hij, hother, ReaderFact.addReaders]

/-- The reads of a node count for the current candidates of their buffers. -/
theorem countReads_eq {current : UInt64 → Nat → Bool} (ids : List UInt64)
    {facts : List ReaderFact} (hsorted : FactsSorted facts) (h : ActiveIs current facts) :
    ids.foldl countRead facts = facts.map fun f =>
      f.addReaders (if current f.logicalId f.writer then ids.count f.logicalId else 0) := by
  induction ids generalizing facts with
  | nil =>
      refine (List.map_id facts).symm.trans (List.map_congr_left fun f _ => ?_)
      simp [ReaderFact.addReaders]
  | cons id ids ih =>
      have hstep := countRead_eq hsorted h id
      have hkeys : (countRead facts id).map ReaderFact.key = facts.map ReaderFact.key := by
        rw [hstep, List.map_map]
        rfl
      rw [List.foldl_cons, ih (factsSorted_congr hkeys hsorted)
        (hstep ▸ h.map_addReaders _), hstep, List.map_map]
      refine List.map_congr_left fun f _ => ?_
      show (f.addReaders _).addReaders _ = _
      by_cases hid : f.logicalId = id
      · subst hid
        by_cases hcurrent : current f.logicalId f.writer = true
        · simp [ReaderFact.addReaders, hcurrent]
          omega
        · simp [ReaderFact.addReaders, hcurrent]
      · have hcount : (id :: ids).count f.logicalId = ids.count f.logicalId :=
          List.count_cons_of_ne (Ne.symm hid)
        rw [hcount]
        simp [ReaderFact.addReaders, hid]

theorem activateWrite_of_none {facts : List ReaderFact} {id : UInt64} (node : Nat)
    (h : firstOf facts id = none) : activateWrite facts id node = facts := by
  simp only [activateWrite, h]

theorem activateWrite_of_some {facts : List ReaderFact} {id : UInt64} {first : Nat} (node : Nat)
    (h : firstOf facts id = some first) :
    activateWrite facts id node = facts.modify first fun fact =>
      { fact with active := findWriter facts first (upperBoundId facts first id) node } := by
  simp only [activateWrite, h]

theorem activateWrite_keys (facts : List ReaderFact) (id : UInt64) (node : Nat) :
    (activateWrite facts id node).map ReaderFact.key = facts.map ReaderFact.key := by
  rcases hfirst : firstOf facts id with - | first
  · rw [activateWrite_of_none node hfirst]
  · rw [activateWrite_of_some node hfirst]
    refine List.ext_getElem? fun i => ?_
    rw [List.getElem?_map, List.getElem?_map, List.getElem?_modify]
    cases facts[i]? with
    | none => rfl
    | some f =>
        split <;> rfl

/-- A write changes no count. -/
theorem activateWrite_mem {facts : List ReaderFact} {id : UInt64} {node : Nat} {f' : ReaderFact}
    (h : f' ∈ activateWrite facts id node) :
    ∃ f ∈ facts, f'.key = f.key ∧ f'.readers = f.readers := by
  rcases hfirst : firstOf facts id with - | first
  · rw [activateWrite_of_none node hfirst] at h
    exact ⟨f', h, rfl, rfl⟩
  · rw [activateWrite_of_some node hfirst] at h
    obtain ⟨i, hi⟩ := List.mem_iff_getElem?.mp h
    rw [List.getElem?_modify] at hi
    obtain ⟨f, hf, rfl⟩ := Option.map_eq_some_iff.mp hi
    refine ⟨f, List.mem_of_getElem? hf, ?_⟩
    split <;> exact ⟨rfl, rfl⟩

/-- A write makes the candidate of its node the current one of its buffer. -/
theorem activateWrite_active {current : UInt64 → Nat → Bool} {facts : List ReaderFact}
    (hsorted : FactsSorted facts) (h : ActiveIs current facts) (id : UInt64) (node : Nat) :
    ActiveIs (fun id' writer => if id' = id then decide (writer = node) else current id' writer)
      (activateWrite facts id node) := by
  have hkeys := activateWrite_keys facts id node
  have hget : ∀ {j : Nat} {id' : UInt64} {writer : Nat},
      (∃ g, (activateWrite facts id node)[j]? = some g ∧ g.logicalId = id' ∧ g.writer = writer) ↔
        ∃ g, facts[j]? = some g ∧ g.logicalId = id' ∧ g.writer = writer := by
    have hiff : ∀ (fs : List ReaderFact) (j : Nat) (id' : UInt64) (writer : Nat),
        (∃ g, fs[j]? = some g ∧ g.logicalId = id' ∧ g.writer = writer) ↔
          (fs.map ReaderFact.key)[j]? = some (id', writer) := by
      intro fs j id' writer
      rw [List.getElem?_map, Option.map_eq_some_iff]
      simp [ReaderFact.key]
    intro j id' writer
    rw [hiff, hiff, hkeys]
  intro id' first f' hfirst' hf' j
  have hfirst : firstOf facts id' = some first := firstOf_congr hkeys id' ▸ hfirst'
  obtain ⟨⟨f, hf, hfid⟩, -⟩ := firstOf_eq_some hsorted hfirst
  have hexists : ∀ P : Nat → Prop,
      (∃ g, (activateWrite facts id node)[j]? = some g ∧ g.logicalId = id' ∧ P g.writer) ↔
        ∃ g, facts[j]? = some g ∧ g.logicalId = id' ∧ P g.writer := by
    intro P
    constructor
    · rintro ⟨g, hg, hgid, hP⟩
      obtain ⟨g', hg', hgid', hw⟩ := hget.mp ⟨g, hg, hgid, rfl⟩
      exact ⟨g', hg', hgid', hw ▸ hP⟩
    · rintro ⟨g, hg, hgid, hP⟩
      obtain ⟨g', hg', hgid', hw⟩ := hget.mpr ⟨g, hg, hgid, rfl⟩
      exact ⟨g', hg', hgid', hw ▸ hP⟩
  rw [hexists fun writer =>
    (if id' = id then decide (writer = node) else current id' writer) = true]
  by_cases hid : id' = id
  · subst hid
    rw [activateWrite_of_some node hfirst] at hf'
    simp only [List.getElem?_modify_eq, hf, Option.map_eq_map, Option.map_some,
      Option.some.injEq] at hf'
    subst hf'
    simpa using findWriter_eq_some hsorted hfirst
  · -- the first fact of another buffer is another fact, and keeps its pointer
    have hsame : f'.active = f.active := by
      rcases hother : firstOf facts id with - | first₂
      · rw [activateWrite_of_none node hother] at hf'
        obtain rfl : f = f' := by simpa [hf] using hf'
        rfl
      · rw [activateWrite_of_some node hother] at hf'
        obtain ⟨⟨f₂, hf₂, hf₂id⟩, -⟩ := firstOf_eq_some hsorted hother
        have hne : first₂ ≠ first := by
          rintro rfl
          obtain rfl : f = f₂ := by simpa [hf] using hf₂
          exact hid (hfid ▸ hf₂id)
        simp only [List.getElem?_modify, hne, if_false, id_map'] at hf'
        obtain rfl : f = f' := by simpa [hf] using hf'
        rfl
    simp only [hid, if_false, hsame]
    exact h id' first f hfirst hf j

theorem activateWrites_spec {current : UInt64 → Nat → Bool} (node : Nat) (ids : List UInt64)
    {facts : List ReaderFact} (hsorted : FactsSorted facts) (h : ActiveIs current facts) :
    let facts' := ids.foldl (fun facts id => activateWrite facts id node) facts
    facts'.map ReaderFact.key = facts.map ReaderFact.key ∧
      (∀ f' ∈ facts', ∃ f ∈ facts, f'.key = f.key ∧ f'.readers = f.readers) ∧
      ActiveIs (fun id writer => if id ∈ ids then decide (writer = node) else current id writer)
        facts' := by
  induction ids generalizing facts current with
  | nil => exact ⟨rfl, fun f hf => ⟨f, hf, rfl, rfl⟩, by simpa using h⟩
  | cons id ids ih =>
      have hkeys := activateWrite_keys facts id node
      obtain ⟨hkeys', hmem, hactive⟩ := ih (factsSorted_congr hkeys hsorted)
        (activateWrite_active hsorted h id node)
      refine ⟨hkeys'.trans hkeys, fun f' hf' => ?_, ?_⟩
      · obtain ⟨f₁, hf₁, hk₁, hr₁⟩ := hmem f' hf'
        obtain ⟨f, hf, hk, hr⟩ := activateWrite_mem hf₁
        exact ⟨f, hf, hk₁.trans hk, hr₁.trans hr⟩
      · have hsame : (fun (id' : UInt64) (writer : Nat) => if id' ∈ ids then decide (writer = node)
            else if id' = id then decide (writer = node) else current id' writer) =
            fun id' writer => if id' ∈ id :: ids then decide (writer = node)
              else current id' writer := by
          funext id' writer
          by_cases h₁ : id' ∈ ids
          · simp [h₁]
          · by_cases h₂ : id' = id <;> simp [h₁, h₂]
        rw [← hsame]
        exact hactive

/-! ### The whole sweep -/

theorem Counted.sweepNode {seen : List GraphNode} {facts : List ReaderFact}
    (h : Counted seen facts) (node : GraphNode)
    (hwrites : ∀ f ∈ facts, ∀ writer, seen[f.writer]? = some writer →
      writer.writesTo f.logicalId = true) :
    Counted (seen ++ [node]) (sweepNode facts node seen.length) ∧
      (sweepNode facts node seen.length).map ReaderFact.key = facts.map ReaderFact.key := by
  have hreads := countReads_eq node.readIds h.sorted h.active
  have hkeys : (node.readIds.foldl countRead facts).map ReaderFact.key =
      facts.map ReaderFact.key := by
    rw [hreads, List.map_map]
    rfl
  obtain ⟨hkeys', hmem, hactive⟩ := activateWrites_spec seen.length node.writeIds
    (factsSorted_congr hkeys h.sorted) (hreads ▸ h.active.map_addReaders _)
  refine ⟨⟨factsSorted_congr (hkeys'.trans hkeys) h.sorted, ?_, fun f' hf' => ?_⟩,
    hkeys'.trans hkeys⟩
  · have hcurrent : isCurrent (seen ++ [node]) = fun id writer =>
        if id ∈ node.writeIds then decide (writer = seen.length) else isCurrent seen id writer := by
      funext id writer
      rw [isCurrent_snoc]
      simp only [mem_writeIds]
    rw [hcurrent]
    exact hactive
  · obtain ⟨f₁, hf₁, hk, hr⟩ := hmem f' hf'
    rw [hreads] at hf₁
    obtain ⟨f, hf, rfl⟩ := List.mem_map.mp hf₁
    simp only [ReaderFact.key, Prod.mk.injEq] at hk
    rw [hr, hk.1, hk.2]
    show f.readers + _ = versionReads f.logicalId ((seen ++ [node]).drop (f.writer + 1))
    rw [h.readers f hf]
    by_cases hlt : f.writer < seen.length
    · -- the version is current as long as nothing behind its writer writes the buffer
      obtain ⟨writer, hwriter⟩ : ∃ writer, seen[f.writer]? = some writer :=
        ⟨_, List.getElem?_eq_getElem hlt⟩
      have hcurrent : isCurrent seen f.logicalId f.writer =
          !(seen.drop (f.writer + 1)).any (·.writesTo f.logicalId) := by
        rw [isCurrent, hwriter, Option.any_some, hwrites f hf writer hwriter, Bool.true_and]
      rw [List.drop_append_of_le_length hlt, versionReads_snoc, hcurrent, readCount_eq]
      cases (seen.drop (f.writer + 1)).any (·.writesTo f.logicalId) <;> simp
    · have hnot : isCurrent seen f.logicalId f.writer = false := by
        rw [isCurrent, List.getElem?_eq_none (by omega)]
        rfl
      rw [hnot, List.drop_eq_nil_of_le (by omega), List.drop_eq_nil_of_le (by simp; omega)]
      simp

theorem counted_sweep (nodes seen : List GraphNode) {facts : List ReaderFact}
    (h : Counted seen facts)
    (hwrites : ∀ f ∈ facts, ∀ writer, (seen ++ nodes)[f.writer]? = some writer →
      writer.writesTo f.logicalId = true) :
    Counted (seen ++ nodes)
      ((nodes.zipIdx seen.length).foldl (fun facts x => sweepNode facts x.1 x.2) facts) ∧
    ((nodes.zipIdx seen.length).foldl (fun facts x => sweepNode facts x.1 x.2) facts).map
      ReaderFact.key = facts.map ReaderFact.key := by
  induction nodes generalizing seen facts with
  | nil => exact ⟨by simpa using h, rfl⟩
  | cons node nodes ih =>
      have hsplit : seen ++ node :: nodes = (seen ++ [node]) ++ nodes := by simp
      obtain ⟨hstep, hkeys⟩ := h.sweepNode node fun f hf writer hwriter =>
        hwrites f hf writer (by
          rw [List.getElem?_append_left (List.getElem?_eq_some_iff.mp hwriter).1]
          exact hwriter)
      have hwrites' : ∀ f ∈ RunD.sweepNode facts node seen.length, ∀ writer,
          ((seen ++ [node]) ++ nodes)[f.writer]? = some writer →
            writer.writesTo f.logicalId = true := by
        intro f' hf' writer hwriter
        have hmem : f'.key ∈ facts.map ReaderFact.key := hkeys ▸ List.mem_map_of_mem hf'
        obtain ⟨f, hf, hk⟩ := List.mem_map.mp hmem
        simp only [ReaderFact.key, Prod.mk.injEq] at hk
        rw [← hk.1]
        exact hwrites f hf writer (by rw [hk.2, hsplit]; exact hwriter)
      obtain ⟨hrest, hkeys'⟩ := ih (seen ++ [node]) hstep hwrites'
      rw [List.length_append, List.length_singleton] at hrest hkeys'
      rw [List.zipIdx_cons, List.foldl_cons, hsplit]
      exact ⟨hrest, hkeys'.trans hkeys⟩

/-! ### The facts of a graph -/

/-- A single written buffer that the consumer reads once. -/
theorem inspectBoundary_candidate {left right : GraphNode}
    (h : (inspectBoundary left right).candidate = true)
    (hwrites : (inspectBoundary left right).producerWrites = 1)
    (hreads : (inspectBoundary left right).consumerReads = 1) :
    left.writeIds = [(inspectBoundary left right).intermediate] ∧
      right.readIds.count (inspectBoundary left right).intermediate = 1 := by
  unfold inspectBoundary at *
  split at h
  · next intermediate heq =>
    rw [heq] at hwrites hreads ⊢
    by_cases hmem : right.readIds.contains intermediate = true
    · simp only [hmem, if_true] at hreads ⊢
      exact ⟨trivial, hreads⟩
    · rw [if_neg hmem] at h
      exact absurd h (by simp)
  · next writes hne =>
    split at h
    · next intermediate hfind =>
      simp only [hfind] at hwrites
      obtain ⟨only, hone⟩ := List.length_eq_one_iff.mp hwrites
      exact absurd hone (hne only)
    · exact absurd h (by simp)

/-- A fact of the graph is about a boundary: one node writes the buffer, and only it, and the
next one reads it once. -/
structure BoundaryFact (graph : Graph) (id : UInt64) (writer : Nat) : Prop where
  boundary : ∃ left right, graph.nodes[writer]? = some left ∧
    graph.nodes[writer + 1]? = some right ∧ left.writeIds = [id] ∧ right.readIds.count id = 1

theorem mem_candidateFacts {graph : Graph} {fact : ReaderFact} (h : fact ∈ candidateFacts graph) :
    BoundaryFact graph fact.logicalId fact.writer ∧ fact.readers = 0 ∧ fact.active = none := by
  obtain ⟨boundary, hmem, hfact⟩ := List.mem_filterMap.mp h
  have hlt : boundary < graph.nodes.length - 1 := List.mem_range.mp hmem
  obtain ⟨left, hleft⟩ : ∃ left, graph.nodes[boundary]? = some left :=
    ⟨_, List.getElem?_eq_getElem (by omega)⟩
  obtain ⟨right, hright⟩ : ∃ right, graph.nodes[boundary + 1]? = some right :=
    ⟨_, List.getElem?_eq_getElem (by omega)⟩
  simp only [boundaryShape, hleft, hright] at hfact
  split at hfact
  · next hshape =>
    obtain ⟨hwrite, hread⟩ := inspectBoundary_candidate hshape.1 hshape.2.1 hshape.2.2
    rw [Option.some.injEq] at hfact
    subst hfact
    exact ⟨⟨left, right, hleft, hright, hwrite, hread⟩, rfl, rfl⟩
  · exact absurd hfact (by simp)

/-- There is one fact for a boundary at most. -/
theorem candidateFacts_writer_nodup (graph : Graph) :
    ((candidateFacts graph).map ReaderFact.writer).Nodup := by
  have hsub : ∀ xs : List Nat, xs.Nodup →
      ((xs.filterMap fun boundary =>
        if (boundaryShape graph boundary).candidate ∧
            (boundaryShape graph boundary).producerWrites = 1 ∧
            (boundaryShape graph boundary).consumerReads = 1 then
          some ({ logicalId := (boundaryShape graph boundary).intermediate,
                  writer := boundary } : ReaderFact)
        else none).map ReaderFact.writer).Sublist xs := by
    intro xs _
    induction xs with
    | nil => exact List.Sublist.refl _
    | cons x xs ih =>
        have hrest := ih (by simp_all)
        rw [List.filterMap_cons]
        split
        · exact hrest.cons x
        · next fact hfact =>
          split at hfact
          · rw [Option.some.injEq] at hfact
            subst hfact
            exact hrest.cons_cons x
          · exact absurd hfact (by simp)
  exact (hsub _ List.nodup_range).nodup List.nodup_range

instance : IsTrans ReaderFact FactLe := by
  refine ⟨fun f g e hfg hge => ?_⟩
  rcases hfg with hlt | ⟨heq, hle⟩
  · rcases hge with hlt' | ⟨heq', -⟩
    · exact Or.inl (UInt64.lt_trans hlt hlt')
    · exact Or.inl (heq' ▸ hlt)
  · rcases hge with hlt' | ⟨heq', hle'⟩
    · exact Or.inl (heq ▸ hlt')
    · exact Or.inr ⟨heq.trans heq', hle.trans hle'⟩

instance : Std.Total FactLe := by
  refine ⟨fun f g => ?_⟩
  by_cases hfg : f.logicalId < g.logicalId
  · exact Or.inl (Or.inl hfg)
  by_cases hgf : g.logicalId < f.logicalId
  · exact Or.inr (Or.inl hgf)
  have heq : f.logicalId = g.logicalId :=
    UInt64.le_antisymm (UInt64.not_lt.mp hgf) (UInt64.not_lt.mp hfg)
  rcases Nat.le_total f.writer g.writer with hw | hw
  · exact Or.inl (Or.inr ⟨heq, hw⟩)
  · exact Or.inr (Or.inr ⟨heq.symm, hw⟩)

theorem factsSorted_initial (graph : Graph) :
    FactsSorted ((candidateFacts graph).insertionSort FactLe) := by
  have hsorted := List.pairwise_insertionSort FactLe (candidateFacts graph)
  have hnodup : (((candidateFacts graph).insertionSort FactLe).map ReaderFact.writer).Nodup :=
    ((List.perm_insertionSort FactLe _).map _).nodup_iff.mpr (candidateFacts_writer_nodup graph)
  intro i j f g hij hf hg
  obtain ⟨hi, rfl⟩ := List.getElem?_eq_some_iff.mp hf
  obtain ⟨hj, rfl⟩ := List.getElem?_eq_some_iff.mp hg
  rcases List.pairwise_iff_getElem.mp hsorted i j hi hj hij with h | ⟨h, hle⟩
  · exact Or.inl h
  · refine Or.inr ⟨h, Nat.lt_of_le_of_ne hle fun heq => ?_⟩
    have hne := List.pairwise_iff_getElem.mp hnodup i j (by simpa using hi) (by simpa using hj) hij
    rw [List.getElem_map, List.getElem_map] at hne
    exact hne heq

/-- The facts of a graph after the sweep. -/
theorem counted_buildReaderFacts (graph : Graph) :
    Counted graph.nodes (buildReaderFacts graph) ∧
      (buildReaderFacts graph).map ReaderFact.key =
        ((candidateFacts graph).insertionSort FactLe).map ReaderFact.key := by
  have hinit : Counted [] ((candidateFacts graph).insertionSort FactLe) := by
    refine ⟨factsSorted_initial graph, fun id first f _ hf j => ?_, fun f hf => ?_⟩
    · have hmem := (List.mem_insertionSort FactLe).mp (List.mem_of_getElem? hf)
      rw [(mem_candidateFacts hmem).2.2]
      simp [isCurrent]
    · rw [(mem_candidateFacts ((List.mem_insertionSort FactLe).mp hf)).2.1]
      simp [versionReads]
  have hwrites : ∀ f ∈ (candidateFacts graph).insertionSort FactLe, ∀ writer,
      ([] ++ graph.nodes)[f.writer]? = some writer → writer.writesTo f.logicalId = true := by
    intro f hf writer hwriter
    obtain ⟨left, right, hleft, -, hids, -⟩ :=
      (mem_candidateFacts ((List.mem_insertionSort FactLe).mp hf)).1.boundary
    rw [List.nil_append, hleft, Option.some.injEq] at hwriter
    rw [← hwriter, ← mem_writeIds, hids]
    exact List.mem_singleton.mpr rfl
  exact counted_sweep graph.nodes [] hinit hwrites

/-- **The reader count of the planner**: where it is not zero it is the number of reads of the
version, counted from the definition. -/
theorem readerCount_eq {graph : Graph} {id : UInt64} {writer : Nat}
    (h : readerCount (buildReaderFacts graph) id writer ≠ 0) :
    readerCount (buildReaderFacts graph) id writer =
      versionReads id (graph.nodes.drop (writer + 1)) := by
  obtain ⟨hcounted, -⟩ := counted_buildReaderFacts graph
  rw [readerCount] at h ⊢
  rcases hfirst : firstOf (buildReaderFacts graph) id with - | first
  · rw [hfirst] at h
    exact absurd rfl h
  · rw [hfirst] at h
    dsimp only at h ⊢
    rcases hfound : findWriter (buildReaderFacts graph) first
      (upperBoundId (buildReaderFacts graph) first id) writer with - | found
    · rw [hfound] at h
      exact absurd rfl h
    · obtain ⟨f, hf, hid, hw⟩ := (findWriter_eq_some hcounted.sorted hfirst).mp hfound
      dsimp only
      rw [hf, Option.map_some, Option.getD_some,
        hcounted.readers f (List.mem_of_getElem? hf), hid, hw]

/-- Every boundary has its candidate. -/
theorem BoundaryFact.mem_candidateFacts {graph : Graph} {id : UInt64} {writer : Nat}
    (h : BoundaryFact graph id writer) : ∃ f ∈ candidateFacts graph, f.key = (id, writer) := by
  obtain ⟨left, right, hleft, hright, hwrites, hreads⟩ := h.boundary
  have hlt : writer + 1 < graph.nodes.length := (List.getElem?_eq_some_iff.mp hright).1
  have hmem : id ∈ right.readIds := by
    apply List.count_pos_iff.mp
    rw [hreads]
    exact Nat.one_pos
  have hshape : boundaryShape graph writer =
      { producerWrites := 1, consumerReads := 1,
        consumerReadOrdinal := lastIdxOf id right.readIds, intermediate := id,
        candidate := true } := by
    simp only [boundaryShape, hleft, hright, inspectBoundary, hwrites]
    rw [if_pos (List.contains_iff_mem.mpr hmem), hreads]
  refine ⟨{ logicalId := id, writer := writer }, ?_, rfl⟩
  refine List.mem_filterMap.mpr ⟨writer, List.mem_range.mpr (Nat.lt_sub_of_add_lt hlt), ?_⟩
  simp only [hshape, and_self, if_true]

/-- The facts of a graph are about its boundaries, and about all of them. -/
theorem mem_buildReaderFacts {graph : Graph} {id : UInt64} {writer : Nat} :
    (∃ f ∈ buildReaderFacts graph, f.key = (id, writer)) ↔ BoundaryFact graph id writer := by
  have hkeys : ∀ key : UInt64 × Nat, (∃ f ∈ buildReaderFacts graph, f.key = key) ↔
      ∃ f ∈ candidateFacts graph, f.key = key := by
    intro key
    rw [← List.mem_map, (counted_buildReaderFacts graph).2, List.mem_map]
    simp only [List.mem_insertionSort]
  rw [hkeys]
  constructor
  · rintro ⟨f, hf, hkey⟩
    obtain ⟨rfl, rfl⟩ := Prod.mk.inj hkey
    exact (RunD.mem_candidateFacts hf).1
  · intro h
    exact h.mem_candidateFacts

/-- The reader count of a fact is the one the fact holds. -/
theorem readerCount_of_mem {graph : Graph} {f : ReaderFact} (hf : f ∈ buildReaderFacts graph) :
    readerCount (buildReaderFacts graph) f.logicalId f.writer = f.readers := by
  obtain ⟨hcounted, -⟩ := counted_buildReaderFacts graph
  obtain ⟨j, hj⟩ := List.mem_iff_getElem?.mp hf
  obtain ⟨first, hfirst⟩ := firstOf_isSome hcounted.sorted hj rfl
  have hfound := (findWriter_eq_some hcounted.sorted hfirst).mpr ⟨f, hj, rfl, rfl⟩
  simp only [readerCount, hfirst, hfound, hj, Option.map_some, Option.getD_some]

/-- **The facts of the planner**: there is one for every boundary and for nothing else, and
both the fact and the count that is looked up for it are the reads of the version, counted
from the definition. -/
theorem buildReaderFacts_exact (graph : Graph) (id : UInt64) (writer : Nat) :
    ((∃ f ∈ buildReaderFacts graph, f.key = (id, writer)) ↔ BoundaryFact graph id writer) ∧
    ∀ f ∈ buildReaderFacts graph, f.key = (id, writer) →
      f.readers = versionReads id (graph.nodes.drop (writer + 1)) ∧
      readerCount (buildReaderFacts graph) id writer =
        versionReads id (graph.nodes.drop (writer + 1)) := by
  refine ⟨mem_buildReaderFacts, fun f hf hkey => ?_⟩
  obtain ⟨rfl, rfl⟩ := Prod.mk.inj hkey
  have hreaders := (counted_buildReaderFacts graph).1.readers f hf
  exact ⟨hreaders, (readerCount_of_mem hf).trans hreaders⟩

end RunD
