/-
The resources of an admitted compute program, `AnalyzeComputeResources`.

One sweep over the nodes records which of them produce values and the last node
that uses each; a second one adds up, for every node, the words it releases;
the third keeps a running count of the live words and their peak.  A value is
held from its node on up to and including its last use, and one without a use
is held at its own node.  The running count is the load of these intervals.
-/
import Mathlib.Order.Lattice.Nat
import RunD.IntervalLoad
import RunD.IrSafety

namespace RunD

/-! ### The analysis -/

def kComputeResourceAnalysisVersion : Nat := 1

/-- Structural 32-bit value words, not registers.  All counters are at most four times the number
of nodes. -/
structure ComputeResourceSummary where
  analysisVersion : Nat := 0
  peakLiveWords : Nat := 0
  directReadCount : Nat := 0
  uniformReadCount : Nat := 0
  indexedReadCount : Nat := 0
  writeCount : Nat := 0
  ok : Bool := false
  reason : String := "compute_resource_summary_invalid"
  deriving DecidableEq, Repr

/-- A part of the analysis; it leaves early with `RejectAnalyzedSummary()`. -/
abbrev Analyzing := Checked ComputeResourceSummary

/-- What the first sweep has recorded, by the number of the node. -/
structure ValueScan where
  lastUse : List Nat := List.replicate (kMaxComputeNodeCount + 1) 0
  producesValue : List Bool := List.replicate (kMaxComputeNodeCount + 1) false
  out : ComputeResourceSummary := {}
  deriving DecidableEq, Repr

def noteOperand (producesValue : List Bool) (current : Nat) (ref : UInt32) (lastUse : List Nat) :
    Analyzing (List Nat) := do
  require (ref.toNat ≠ 0 ∧ ref.toNat < current) {}
  let produced ← fetch producesValue ref.toNat
  require (produced = true) {}
  assign lastUse ref.toNat current

/-- A dead structural definition is live at its defining node. -/
def noteDefinition (produced : Bool) (current : Nat) (lastUse : List Nat) :
    Analyzing (List Nat) :=
  if produced then assign lastUse current current else pure lastUse

def countNode (op : IrOp) (out : ComputeResourceSummary) : ComputeResourceSummary :=
  match op with
  | .read => { out with directReadCount := out.directReadCount + 1 }
  | .readUniform => { out with uniformReadCount := out.uniformReadCount + 1 }
  | .readAt => { out with indexedReadCount := out.indexedReadCount + 1 }
  | .write => { out with writeCount := out.writeCount + 1 }
  | _ => out

def scanNode (parsed : ParsedIR) (index : Nat) (scan : ValueScan) : Analyzing ValueScan := do
  let node ← fetch parsed.nodes index
  let resources := parsedNodeResourcesFor node
  let used ← forEach resources.refs (noteOperand scan.producesValue (index + 1)) scan.lastUse
  let producesValue ← assign scan.producesValue (index + 1) resources.producesValue
  let lastUse ← noteDefinition resources.producesValue (index + 1) used
  pure { lastUse := lastUse, producesValue := producesValue, out := countNode node.op scan.out }

def scanNodes (parsed : ParsedIR) : Analyzing ValueScan :=
  forRange parsed.nodes.length (scanNode parsed) {}

def wordsPerValue (scalar : ComputeScalar) (domain : ComputeDomain) : Nat :=
  if domain = .fixed then 4 else if scalar = .lane64 then 2 else 1

/-- `release_words[last_use[node]] += words_per_value`. -/
def releaseNode (scan : ValueScan) (words index : Nat) (releaseWords : List Nat) :
    Analyzing (List Nat) := do
  let produced ← fetch scan.producesValue (index + 1)
  if produced then do
    let use ← fetch scan.lastUse (index + 1)
    let released ← fetch releaseWords use
    assign releaseWords use (released + words)
  else pure releaseWords

structure LiveWords where
  live : Nat := 0
  peak : Nat := 0
  deriving DecidableEq, Repr

def trackNode (scan : ValueScan) (words : Nat) (releaseWords : List Nat) (index : Nat)
    (state : LiveWords) : Analyzing LiveWords := do
  let produced ← fetch scan.producesValue (index + 1)
  let live := if produced then state.live + words else state.live
  let released ← fetch releaseWords (index + 1)
  require (released ≤ live) {}
  pure { live := live - released, peak := max state.peak live }

/-- The second and the third sweep: the live words behind the last node, and their peak. -/
def trackLive (parsed : ParsedIR) (scan : ValueScan) (words : Nat) : Analyzing LiveWords := do
  let releaseWords ← forRange parsed.nodes.length (releaseNode scan words)
    (List.replicate (kMaxComputeNodeCount + 1) 0)
  forRange parsed.nodes.length (trackNode scan words releaseWords) {}

/-- `AnalyzeComputeResources`; a summary that is not ok is what the analysis leaves with. -/
def analyzeComputeResources (parsed : ParsedIR) (scalar : ComputeScalar) (domain : ComputeDomain) :
    Analyzing ComputeResourceSummary := do
  require (domain ≠ .unknown ∧ parsed.scalarMode = domainModeFor scalar domain ∧
    parsed.nodes ≠ [] ∧ parsed.nodes.length ≤ kMaxComputeNodeCount) {}
  let scan ← scanNodes parsed
  require (scan.out.writeCount ≠ 0) {}
  let words ← trackLive parsed scan (wordsPerValue scalar domain)
  require (words.live = 0 ∧ words.peak ≠ 0) {}
  pure { scan.out with
    peakLiveWords := words.peak
    analysisVersion := kComputeResourceAnalysisVersion
    ok := true
    reason := "ok" }

/-! ### Values and their uses -/

/-- The node at the index produces a value. -/
def hasValue (parsed : ParsedIR) (index : Nat) : Bool :=
  parsed.nodes[index]?.any fun node => (parsedNodeResourcesFor node).producesValue

/-- The node at one index has the one at another index as an operand. -/
def usesValue (parsed : ParsedIR) (user index : Nat) : Bool :=
  parsed.nodes[user]?.any fun node =>
    (parsedNodeResourcesFor node).refs.any fun ref => ref.toNat == index + 1

/-- The value of a node is used at step `k` or later, or step `k` is its own. -/
def liveDuring (parsed : ParsedIR) (k index : Nat) : Bool :=
  hasValue parsed index && decide (index ≤ k) && (index == k ||
    (List.range parsed.nodes.length).any fun user =>
      decide (k ≤ user) && usesValue parsed user index)

/-- The words of the values that are live while node `k` is computed. -/
def liveWordsDuring (parsed : ParsedIR) (words k : Nat) : Nat :=
  ∑ index ∈ Finset.range parsed.nodes.length, if liveDuring parsed k index then words else 0

def peakWordsDuring (parsed : ParsedIR) (words : Nat) : Nat :=
  (Finset.range parsed.nodes.length).sup (liveWordsDuring parsed words)

/-- The words of the values that are defined before node `k` and used by node `k` or a later
one. -/
def liveWordsBefore (parsed : ParsedIR) (words k : Nat) : Nat :=
  ∑ index ∈ Finset.range parsed.nodes.length,
    if decide (index < k) && liveDuring parsed k index then words else 0

def peakWordsBefore (parsed : ParsedIR) (words : Nat) : Nat :=
  (Finset.range (parsed.nodes.length + 1)).sup (liveWordsBefore parsed words)

/-! ### The first sweep -/

/-- Node `last` is the last use of a value among the first `k` nodes, its own node included. -/
structure LastUse (parsed : ParsedIR) (k index last : Nat) : Prop where
  index_le : index ≤ last
  last_lt : last < k
  uses : last = index ∨ usesValue parsed last index = true
  latest : ∀ user < k, usesValue parsed user index = true → user ≤ last

/-- What the first sweep knows after `k` nodes. -/
structure Scanned (parsed : ParsedIR) (k : Nat) (scan : ValueScan) : Prop where
  lastLength : scan.lastUse.length = kMaxComputeNodeCount + 1
  producesLength : scan.producesValue.length = kMaxComputeNodeCount + 1
  produces : ∀ i < k, scan.producesValue[i + 1]? = some (hasValue parsed i)
  last : ∀ i < k, hasValue parsed i = true →
    ∃ last, scan.lastUse[i + 1]? = some (last + 1) ∧ LastUse parsed k i last
  writes : scan.out.writeCount = writeNodeCount (parsed.nodes.take k)

theorem noteOperands_eq {producesValue : List Bool} {current : Nat} {refs : List UInt32}
    {lastUse : List Nat} (hlength : lastUse.length = producesValue.length)
    (hrefs : ∀ ref ∈ refs, ref.toNat ≠ 0 ∧ ref.toNat < current ∧
      producesValue[ref.toNat]? = some true) :
    ∃ used, forEach refs (noteOperand producesValue current) lastUse = Except.ok used ∧
      used.length = lastUse.length ∧
      ∀ i, used[i]? = if refs.any (·.toNat == i) then some current else lastUse[i]? := by
  induction refs generalizing lastUse with
  | nil => exact ⟨lastUse, rfl, rfl, fun i => by simp⟩
  | cons ref refs ih =>
      obtain ⟨hne, hlt, hproduced⟩ := hrefs ref (by simp)
      have hinside : ref.toNat < lastUse.length :=
        hlength ▸ (List.getElem?_eq_some_iff.mp hproduced).1
      have hlength' : (lastUse.set ref.toNat current).length = producesValue.length := by
        rw [List.length_set]
        exact hlength
      obtain ⟨used, hrun, hused, hget⟩ := ih hlength' fun other hother =>
        hrefs other (by simp [hother])
      refine ⟨used, ?_, by rw [hused, List.length_set], fun i => ?_⟩
      · rw [forEach, noteOperand, require_of_holds ⟨hne, hlt⟩, ok_bind, fetch_of_lt hproduced,
          ok_bind, require_of_holds rfl, ok_bind, assign_of_lt hinside, ok_bind]
        exact hrun
      · rw [hget i, List.any_cons, List.getElem?_set]
        by_cases hi : ref.toNat = i
        · subst hi
          simp [hinside]
        · simp [hi]

/-- The operands of a node are values of earlier nodes. -/
def OperandsEarlier (parsed : ParsedIR) : Prop :=
  ∀ i node, parsed.nodes[i]? = some node → ∀ ref ∈ (parsedNodeResourcesFor node).refs,
    ∃ j < i, ref.toNat = j + 1 ∧ hasValue parsed j = true

@[simp] theorem countNode_writeCount (op : IrOp) (out : ComputeResourceSummary) :
    (countNode op out).writeCount = out.writeCount + if op == .write then 1 else 0 := by
  cases op <;> rfl

section Scan

variable {parsed : ParsedIR}

theorem LastUse.succ {k index last : Nat} (h : LastUse parsed k index last) :
    LastUse parsed (k + 1) index (if usesValue parsed k index then k else last) := by
  have hindex : index < k := lt_of_le_of_lt h.index_le h.last_lt
  cases huse : usesValue parsed k index with
  | true =>
      refine ⟨hindex.le, Nat.lt_succ_self k, Or.inr huse, fun user huser _ => ?_⟩
      exact Nat.lt_succ_iff.mp huser
  | false =>
      refine ⟨h.index_le, Nat.lt_succ_of_lt h.last_lt, h.uses, fun user huser hused => ?_⟩
      rcases Nat.lt_succ_iff_lt_or_eq.mp huser with hlt | rfl
      · exact h.latest user hlt hused
      · exact absurd (huse.symm.trans hused) (by simp)

/-- One node of the first sweep. -/
theorem Scanned.scanNode {k : Nat} {scan : ValueScan} (h : Scanned parsed k scan)
    (hearlier : OperandsEarlier parsed) (hk : k < parsed.nodes.length)
    (hmax : parsed.nodes.length ≤ kMaxComputeNodeCount) :
    ∃ after, scanNode parsed k scan = Except.ok after ∧ Scanned parsed (k + 1) after := by
  obtain ⟨node, hnode⟩ : ∃ node, parsed.nodes[k]? = some node :=
    ⟨_, List.getElem?_eq_getElem hk⟩
  have hinside : k + 1 < scan.producesValue.length := by
    rw [h.producesLength]
    exact Nat.succ_lt_succ (lt_of_lt_of_le hk hmax)
  have hvalue : hasValue parsed k = (parsedNodeResourcesFor node).producesValue := by
    rw [hasValue, hnode, Option.any_some]
  have huses : ∀ i, usesValue parsed k i =
      (parsedNodeResourcesFor node).refs.any (fun ref => ref.toNat == i + 1) := by
    intro i
    rw [usesValue, hnode, Option.any_some]
  have hrefs : ∀ ref ∈ (parsedNodeResourcesFor node).refs, ref.toNat ≠ 0 ∧ ref.toNat < k + 1 ∧
      scan.producesValue[ref.toNat]? = some true := by
    intro ref href
    obtain ⟨j, hj, hnumber, hproduced⟩ := hearlier k node hnode ref href
    refine ⟨by omega, by omega, ?_⟩
    rw [hnumber, h.produces j hj, hproduced]
  obtain ⟨used, hrun, hlength, hused⟩ :=
    noteOperands_eq (h.lastLength.trans h.producesLength.symm) hrefs
  have hinside' : k + 1 < used.length := by
    rw [hlength, h.lastLength, ← h.producesLength]
    exact hinside
  -- the node itself is defined behind its operands
  obtain ⟨defined, hdefined, hdlength, hdget⟩ :
      ∃ defined, noteDefinition (parsedNodeResourcesFor node).producesValue (k + 1) used =
          Except.ok defined ∧ defined.length = used.length ∧
        ∀ i, defined[i]? = if i = k + 1 ∧ hasValue parsed k = true then some (k + 1)
          else used[i]? := by
    rw [noteDefinition, ← hvalue]
    cases hasValue parsed k with
    | true =>
        refine ⟨used.set (k + 1) (k + 1), assign_of_lt hinside', List.length_set .., fun i => ?_⟩
        rw [List.getElem?_set]
        by_cases hi : k + 1 = i
        · subst hi
          simp [hinside']
        · simp [hi, Ne.symm hi]
    | false => exact ⟨used, rfl, rfl, fun i => by simp⟩
  refine ⟨{ lastUse := defined
            producesValue :=
              scan.producesValue.set (k + 1) (parsedNodeResourcesFor node).producesValue
            out := countNode node.op scan.out }, ?_, ?_⟩
  · rw [RunD.scanNode, fetch_of_lt hnode, ok_bind]
    dsimp only
    rw [hrun, ok_bind, assign_of_lt hinside, ok_bind, hdefined, ok_bind]
    rfl
  · refine ⟨?_, ?_, fun i hi => ?_, fun i hi hproduced => ?_, ?_⟩
    · rw [hdlength, hlength, h.lastLength]
    · rw [List.length_set, h.producesLength]
    · rw [List.getElem?_set]
      rcases Nat.lt_succ_iff_lt_or_eq.mp hi with hlt | rfl
      · rw [if_neg (by omega)]
        exact h.produces i hlt
      · rw [if_pos rfl, if_pos hinside, hvalue]
    · rcases Nat.lt_succ_iff_lt_or_eq.mp hi with hlt | rfl
      · obtain ⟨last, hlast, hspec⟩ := h.last i hlt hproduced
        refine ⟨_, ?_, hspec.succ⟩
        rw [hdget, if_neg (by omega), hused, ← huses, hlast]
        cases usesValue parsed k i with
        | true => rfl
        | false => rfl
      · refine ⟨i, ?_, le_rfl, Nat.lt_succ_self i, Or.inl rfl, fun user huser _ => ?_⟩
        · rw [hdget, if_pos ⟨rfl, hproduced⟩]
        · exact Nat.lt_succ_iff.mp huser
    · rw [countNode_writeCount, h.writes, writeNodeCount, writeNodeCount, List.take_add_one, hnode,
        List.countP_append]
      simp

theorem scanNodes_scanned (hearlier : OperandsEarlier parsed)
    (hmax : parsed.nodes.length ≤ kMaxComputeNodeCount) :
    ∃ scan, scanNodes parsed = Except.ok scan ∧ Scanned parsed parsed.nodes.length scan := by
  refine forRange_returns (Scanned parsed) ?_ fun k scan hk hscan =>
    hscan.scanNode hearlier hk hmax
  exact ⟨List.length_replicate .., List.length_replicate .., by simp, by simp, by
    simp [writeNodeCount]⟩

end Scan

/-! ### The running count -/

section Track

variable {parsed : ParsedIR} {scan : ValueScan}

/-- The index of the last use of a value, as the scan has it; a node without a value holds
nothing. -/
def ValueScan.lastOf (scan : ValueScan) (parsed : ParsedIR) (index : Nat) : Nat :=
  if hasValue parsed index then scan.lastUse.getD (index + 1) 0 - 1 else index

/-- What a node holds. -/
def valueWords (parsed : ParsedIR) (words index : Nat) : Nat :=
  if hasValue parsed index then words else 0

theorem Scanned.lastUse_eq (h : Scanned parsed parsed.nodes.length scan) {index : Nat}
    (hindex : index < parsed.nodes.length) (hvalue : hasValue parsed index = true) :
    scan.lastUse[index + 1]? = some (scan.lastOf parsed index + 1) ∧
      LastUse parsed parsed.nodes.length index (scan.lastOf parsed index) := by
  obtain ⟨last, hlast, hspec⟩ := h.last index hindex hvalue
  have heq : scan.lastOf parsed index = last := by
    rw [ValueScan.lastOf, if_pos hvalue, List.getD_eq_getElem?_getD, hlast]
    rfl
  rw [heq]
  exact ⟨hlast, hspec⟩

theorem Scanned.le_lastOf (h : Scanned parsed parsed.nodes.length scan) {index : Nat}
    (hindex : index < parsed.nodes.length) :
    index ≤ scan.lastOf parsed index ∧ scan.lastOf parsed index < parsed.nodes.length := by
  cases hvalue : hasValue parsed index with
  | true =>
      have hspec := (h.lastUse_eq hindex hvalue).2
      exact ⟨hspec.index_le, hspec.last_lt⟩
  | false =>
      rw [ValueScan.lastOf, if_neg (by simp [hvalue])]
      exact ⟨le_rfl, hindex⟩

/-- The load of the values is what is live by their uses. -/
theorem Scanned.heldDuring_eq (h : Scanned parsed parsed.nodes.length scan) (words k : Nat)
    (hk : k < parsed.nodes.length) :
    heldDuring parsed.nodes.length (valueWords parsed words) (scan.lastOf parsed) k =
      liveWordsDuring parsed words k := by
  rw [heldDuring, liveWordsDuring]
  apply Finset.sum_congr rfl
  intro index hindex
  rw [valueWords]
  cases hvalue : hasValue parsed index with
  | false => simp [liveDuring, hvalue]
  | true =>
      have hspec := (h.lastUse_eq (Finset.mem_range.mp hindex) hvalue).2
      have hiff : (index ≤ k ∧ k ≤ scan.lastOf parsed index) ↔
          liveDuring parsed k index = true := by
        simp only [liveDuring, hvalue, Bool.true_and, Bool.and_eq_true, decide_eq_true_eq,
          Bool.or_eq_true, beq_iff_eq, List.any_eq_true, List.mem_range]
        refine and_congr_right fun hle => ⟨fun hlast => ?_, ?_⟩
        · rcases hspec.uses with heq | huse
          · exact Or.inl (le_antisymm hle (heq ▸ hlast))
          · exact Or.inr ⟨_, hspec.last_lt, hlast, huse⟩
        · rintro (rfl | ⟨user, huser, hku, huse⟩)
          · exact hspec.index_le
          · exact hku.trans (hspec.latest user huser huse)
      simp only [hiff, if_true]

/-- The second sweep adds up what each node releases. -/
theorem releaseNodes_eq (h : Scanned parsed parsed.nodes.length scan)
    (hmax : parsed.nodes.length ≤ kMaxComputeNodeCount) (words : Nat) :
    ∃ releaseWords, forRange parsed.nodes.length (releaseNode scan words)
        (List.replicate (kMaxComputeNodeCount + 1) 0) = Except.ok releaseWords ∧
      ∀ k < parsed.nodes.length, releaseWords[k + 1]? =
        some (droppedAt parsed.nodes.length (valueWords parsed words) (scan.lastOf parsed) k) := by
  -- what is dropped by the values of the first `m` nodes
  set Released : Nat → List Nat → Prop := fun m release =>
    release.length = kMaxComputeNodeCount + 1 ∧ ∀ k < parsed.nodes.length, release[k + 1]? =
      some (droppedAt m (valueWords parsed words) (scan.lastOf parsed) k) with hReleased
  have hzero : Released 0 (List.replicate (kMaxComputeNodeCount + 1) 0) := by
    refine ⟨List.length_replicate .., fun k hk => ?_⟩
    rw [List.getElem?_replicate, if_pos (Nat.succ_lt_succ (lt_of_lt_of_le hk hmax)), droppedAt,
      Finset.sum_range_zero]
  have hstep : ∀ m release, m < parsed.nodes.length → Released m release →
      ∃ after, releaseNode scan words m release = Except.ok after ∧ Released (m + 1) after := by
    rintro m release hm ⟨hlength, hget⟩
    rw [releaseNode, fetch_of_lt (h.produces m hm), ok_bind]
    cases hvalue : hasValue parsed m with
    | false =>
        refine ⟨release, rfl, hlength, fun k hk => ?_⟩
        rw [droppedAt_succ, valueWords, hvalue, hget k hk]
        simp
    | true =>
        obtain ⟨hlast, hspec⟩ := h.lastUse_eq hm hvalue
        have hreleased := hget _ hspec.last_lt
        have hinside := (List.getElem?_eq_some_iff.mp hreleased).1
        rw [if_pos rfl, fetch_of_lt hlast, ok_bind, fetch_of_lt hreleased, ok_bind,
          assign_of_lt hinside]
        refine ⟨_, rfl, by rw [List.length_set]; exact hlength, fun k hk => ?_⟩
        rw [droppedAt_succ, valueWords, if_pos hvalue, List.getElem?_set, hget k hk]
        by_cases heq : scan.lastOf parsed m = k
        · subst heq
          simp [hinside]
        · simp [heq]
  obtain ⟨releaseWords, hrun, hreleased⟩ := forRange_returns Released hzero hstep
  exact ⟨releaseWords, hrun, hreleased.2⟩

/-- The third sweep: the live words behind a node are the load of the values, their peak so far
is the largest of the loads, and a node never releases more than is live. -/
theorem trackNodes_eq (h : Scanned parsed parsed.nodes.length scan) {words : Nat}
    {releaseWords : List Nat}
    (hrelease : ∀ k < parsed.nodes.length, releaseWords[k + 1]? =
      some (droppedAt parsed.nodes.length (valueWords parsed words) (scan.lastOf parsed) k)) :
    forRange parsed.nodes.length (trackNode scan words releaseWords) {} =
      Except.ok { live := 0, peak := peakWordsDuring parsed words } := by
  set n := parsed.nodes.length with hn
  obtain ⟨state, hrun, hlive, hpeak⟩ := forRange_returns (ε := ComputeResourceSummary)
    (f := trackNode scan words releaseWords)
    (fun k (state : LiveWords) =>
      state.live = heldBefore n (valueWords parsed words) (scan.lastOf parsed) k ∧
        state.peak = (Finset.range k).sup (liveWordsDuring parsed words))
    (n := n) (s := {}) ⟨by simp, by simp⟩ fun k state hk hstate => by
      obtain ⟨hlive, hpeak⟩ := hstate
      have hheld := h.heldDuring_eq words k hk
      have hadd : heldBefore n (valueWords parsed words) (scan.lastOf parsed) k +
          valueWords parsed words k =
            heldDuring n (valueWords parsed words) (scan.lastOf parsed) k :=
        heldBefore_add hk (h.le_lastOf hk).1
      have hsplit : heldDuring n (valueWords parsed words) (scan.lastOf parsed) k =
          droppedAt n (valueWords parsed words) (scan.lastOf parsed) k +
            heldBefore n (valueWords parsed words) (scan.lastOf parsed) (k + 1) :=
        RunD.heldDuring_eq fun i hi => (h.le_lastOf hi).1
      -- the value of the node is taken up before the released words are dropped
      have hup : (if hasValue parsed k = true then state.live + words else state.live) =
          liveWordsDuring parsed words k := by
        rw [← hheld, ← hadd, hlive, valueWords]
        cases hasValue parsed k with
        | true => rfl
        | false => rfl
      refine ⟨{ live := heldBefore n (valueWords parsed words) (scan.lastOf parsed) (k + 1)
                peak := (Finset.range (k + 1)).sup (liveWordsDuring parsed words) },
        ?_, rfl, rfl⟩
      rw [trackNode, fetch_of_lt (h.produces k hk), ok_bind]
      dsimp only
      rw [hup, fetch_of_lt (hrelease k hk), ok_bind, ← hheld, hsplit,
        require_of_holds (Nat.le_add_right ..), ok_bind, Nat.add_sub_cancel_left, ← hsplit, hheld,
        hpeak, Finset.range_add_one, Finset.sup_insert, max_comm]
      rfl
  obtain ⟨live, peak⟩ := state
  dsimp only at hlive hpeak
  rw [hrun, hlive, hpeak, heldBefore_end fun i hi => (h.le_lastOf hi).2]
  rfl

/-- **The running count of the live words never underflows and ends at zero**, whatever the words
of a value are, and its peak is the one of the values that are live at the nodes. -/
theorem trackLive_eq (h : Scanned parsed parsed.nodes.length scan)
    (hmax : parsed.nodes.length ≤ kMaxComputeNodeCount) (words : Nat) :
    trackLive parsed scan words =
      Except.ok { live := 0, peak := peakWordsDuring parsed words } := by
  obtain ⟨releaseWords, hrun, hrelease⟩ := releaseNodes_eq h hmax words
  rw [trackLive, hrun, ok_bind]
  exact trackNodes_eq h hrelease

end Track

/-! ### Validated programs -/

theorem OperandsEarlier.of_references {parsed : ParsedIR}
    (h : ∀ i node, parsed.nodes[i]? = some node → NodeReferences parsed i node) :
    OperandsEarlier parsed := by
  intro i node hnode ref href
  rw [parsedNodeResourcesFor_refs] at href
  obtain ⟨hne, hlt, source, hsource, hwrite⟩ := (h i node hnode).values ref href
  have hpos : ref.toNat ≠ 0 := fun h0 => hne (UInt32.toNat_inj.mp h0)
  refine ⟨ref.toNat - 1, by omega, by omega, ?_⟩
  rw [hasValue, hsource, Option.any_some, parsedNodeResourcesFor_producesValue]
  exact bne_iff_ne.mpr hwrite

/-- A program that writes has something to write. -/
theorem peakWordsDuring_pos {parsed : ParsedIR} (hearlier : OperandsEarlier parsed)
    (hwrites : writeNodeCount parsed.nodes ≠ 0) {words : Nat} (hwords : 0 < words) :
    0 < peakWordsDuring parsed words := by
  obtain ⟨node, hmem, hop⟩ := List.countP_pos_iff.mp (Nat.pos_of_ne_zero hwrites)
  obtain ⟨i, hnode⟩ := List.mem_iff_getElem?.mp hmem
  have hrefs : node.lhs ∈ (parsedNodeResourcesFor node).refs := by
    rw [parsedNodeResourcesFor, if_pos (by simpa using hop)]
    exact List.mem_singleton.mpr rfl
  obtain ⟨j, hj, -, hvalue⟩ := hearlier i node hnode node.lhs hrefs
  have hlt : j < parsed.nodes.length := hj.trans (List.getElem?_eq_some_iff.mp hnode).1
  have hown : words ≤ liveWordsDuring parsed words j := by
    have hsingle : (if liveDuring parsed j j then words else 0) ≤ liveWordsDuring parsed words j :=
      Finset.single_le_sum
        (f := fun index => if liveDuring parsed j index then words else 0)
        (fun _ _ => Nat.zero_le _) (Finset.mem_range.mpr hlt)
    rwa [if_pos (by simp [liveDuring, hvalue])] at hsingle
  exact lt_of_lt_of_le (lt_of_lt_of_le hwords hown)
    (Finset.le_sup (f := liveWordsDuring parsed words) (Finset.mem_range.mpr hlt))

theorem wordsPerValue_bounds (scalar : ComputeScalar) (domain : ComputeDomain) :
    0 < wordsPerValue scalar domain ∧ wordsPerValue scalar domain ≤ 4 := by
  rw [wordsPerValue]
  split_ifs <;> decide

/-- No counter comes near the end of its 32 bits. -/
theorem peakWordsDuring_le {parsed : ParsedIR} (hmax : parsed.nodes.length ≤ kMaxComputeNodeCount)
    (words : Nat) : peakWordsDuring parsed words ≤ kMaxComputeNodeCount * words := by
  apply Finset.sup_le
  intro k _
  have hsum : liveWordsDuring parsed words k ≤ ∑ _i ∈ Finset.range parsed.nodes.length, words := by
    apply Finset.sum_le_sum
    intro index _
    split
    · exact le_rfl
    · exact Nat.zero_le words
  rw [Finset.sum_const, Finset.card_range, smul_eq_mul] at hsum
  exact hsum.trans (Nat.mul_le_mul_right words hmax)

/-- A program that stores the sum of two constants. -/
def storeSum : ParsedIR :=
  { scalarMode := 3
    bindings := [{ kind := kWriteBindingKind, numericMode := 3, name := [0x6f], elementBytes := 4 }]
    nodes := [{ op := .constant, lhs := 5 }, { op := .constant, lhs := 7 },
      { op := .add, lhs := 1, rhs := 2 }, { op := .write, lhs := 3 }] }

theorem parseAndValidate_storeSum :
    parseAndValidate storeFiveIR (buildFusedCanonicalBytes storeSum) = Except.ok storeSum := by
  have haccepted : ParserAccepted storeFiveIR storeSum :=
    { name_lt := by decide
      header := by decide
      binding_count := by decide
      bindings := by decide
      nodes_ne := by decide
      node_count := by decide
      nodes := by decide
      writes := by decide }
  rw [parseAndValidate, parse_buildFusedCanonicalBytes haccepted, ok_bind]
  decide

end RunD
