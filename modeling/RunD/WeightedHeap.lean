/-
The heap of partitions, ordered by load and then by number.

`SiftDownPartitionLoadHeap` computes the places of children in 32 bits.  One
turn of its loop is described for any heap size (`sift_step`).  As long as the
heap has at most 2^31 places the children of a place lie behind it, and sinking
repairs the heap within as many turns as there are places (`ends_siftDown`).
Beyond that size the child of a place in the upper half is a place near the
front again; what comes of that is the subject of `WeightedOverflow`.
-/
import RunD.WeightedOrder
import RunD.MinHeap

namespace RunD

variable {E : WeightedExit → Prop}

/-! ### Keys of partitions and places -/

/-- What the heap orders a partition by: its load, then its number. -/
def loadKey (loads : List UInt64) (partition : Nat) : ℕ ×ₗ ℕ :=
  toLex ((loads.getD partition 0).toNat, partition)

/-- The key of the partition at a place of the heap. -/
def placeKey (loads : List UInt64) (heap : List UInt32) (place : Nat) : ℕ ×ₗ ℕ :=
  loadKey loads (wordAt heap place)

theorem loadKey_lt {loads : List UInt64} {p q : Nat} :
    loadKey loads p < loadKey loads q ↔
      (loads.getD p 0).toNat < (loads.getD q 0).toNat ∨
        (loads.getD p 0).toNat = (loads.getD q 0).toNat ∧ p < q :=
  Prod.Lex.toLex_lt_toLex

theorem load_le_of_loadKey_le {loads : List UInt64} {p q : Nat}
    (h : loadKey loads p ≤ loadKey loads q) :
    (loads.getD p 0).toNat ≤ (loads.getD q 0).toNat := by
  by_contra hlt
  exact absurd (loadKey_lt.mpr (Or.inl (Nat.lt_of_not_le hlt))) (not_lt.mpr h)

/-- The comparison of the heap decides the order of keys. -/
theorem partitionLoadHeapLess_eq {loads : List UInt64} {p q : UInt32}
    (hp : p.toNat < loads.length) (hq : q.toNat < loads.length) :
    partitionLoadHeapLess loads p q =
      Except.ok (decide (loadKey loads p.toNat < loadKey loads q.toNat)) := by
  have hgp : loads[p.toNat]? = some (loads.getD p.toNat 0) := by
    rw [List.getD_eq_getElem?_getD, List.getElem?_eq_getElem hp]
    rfl
  have hgq : loads[q.toNat]? = some (loads.getD q.toNat 0) := by
    rw [List.getD_eq_getElem?_getD, List.getElem?_eq_getElem hq]
    rfl
  rw [partitionLoadHeapLess, fetch_of_lt hgp, ok_bind, fetch_of_lt hgq, ok_bind]
  by_cases hne : loads.getD p.toNat 0 = loads.getD q.toNat 0
  · rw [if_neg (not_not.mpr hne)]
    refine congrArg Except.ok (decide_eq_decide.mpr ?_)
    rw [loadKey_lt, hne, UInt32.lt_iff_toNat_lt]
    simp
  · rw [if_pos hne]
    refine congrArg Except.ok (decide_eq_decide.mpr ?_)
    have hnat : (loads.getD p.toNat 0).toNat ≠ (loads.getD q.toNat 0).toNat := fun h =>
      hne (UInt64.toNat_inj.mp h)
    rw [loadKey_lt, UInt64.lt_iff_toNat_lt]
    constructor
    · exact Or.inl
    · rintro (h | ⟨h, -⟩)
      · exact h
      · exact absurd h hnat

/-! ### Exchanging two places -/

/-- The array with two places exchanged. -/
def swapAt (xs : List UInt32) (i j : Nat) : List UInt32 :=
  (xs.set i (xs.getD j 0)).set j (xs.getD i 0)

theorem wordAt_swapAt {xs : List UInt32} {i j : Nat} (hi : i < xs.length) (hj : j < xs.length)
    (k : Nat) :
    wordAt (swapAt xs i j) k =
      if k = j then wordAt xs i else if k = i then wordAt xs j else wordAt xs k := by
  rw [swapAt, wordAt_set _ (by rwa [List.length_set]), wordAt_set _ hi]
  rfl

theorem swapAt_perm {xs : List UInt32} {i j : Nat} (hi : i < xs.length) (hj : j < xs.length) :
    (swapAt xs i j).Perm xs := by
  have h : ((xs.set i xs[j]).set j xs[i]).Perm xs := List.set_set_perm hi hj
  rw [swapAt, List.getD_eq_getElem?_getD, List.getD_eq_getElem?_getD,
    List.getElem?_eq_getElem hi, List.getElem?_eq_getElem hj]
  exact h

theorem placeKey_swapAt {loads : List UInt64} {heap : List UInt32} {i j : Nat}
    (hi : i < heap.length) (hj : j < heap.length) (k : Nat) :
    placeKey loads (swapAt heap i j) k =
      if k = j then placeKey loads heap i
      else if k = i then placeKey loads heap j else placeKey loads heap k := by
  rw [placeKey, wordAt_swapAt hi hj]
  by_cases h1 : k = j
  · rw [if_pos h1, if_pos h1]
    rfl
  · by_cases h2 : k = i
    · rw [if_neg h1, if_pos h2, if_neg h1, if_pos h2]
      rfl
    · rw [if_neg h1, if_neg h2, if_neg h1, if_neg h2]
      rfl

/-! ### One turn of sinking -/

/-- A heap of the partitions `0, …, n - 1`, in any order, with a load for each. -/
structure HeapArrays (n : Nat) (loads : List UInt64) (heap : List UInt32) : Prop where
  places : heap.Perm (allPackets n)
  loads_length : loads.length = n
  size_lt : n < 2 ^ 32

namespace HeapArrays

variable {n : Nat} {loads : List UInt64} {heap : List UInt32}

theorem length (h : HeapArrays n loads heap) : heap.length = n :=
  h.places.length_eq.trans (length_allPackets n)

theorem swap (h : HeapArrays n loads heap) {i j : Nat} (hi : i < n) (hj : j < n) :
    HeapArrays n loads (swapAt heap i j) :=
  ⟨(swapAt_perm (h.length ▸ hi) (h.length ▸ hj)).trans h.places, h.loads_length, h.size_lt⟩

/-- Reading a place gives a partition with a load. -/
theorem read (h : HeapArrays n loads heap) {place : Nat} (hplace : place < n) :
    ∃ partition : UInt32, heap[place]? = some partition ∧ partition.toNat < loads.length ∧
      wordAt heap place = partition.toNat := by
  have hin : place < heap.length := h.length ▸ hplace
  have hget : heap[place]? = some heap[place] := List.getElem?_eq_getElem hin
  refine ⟨_, hget, ?_, wordAt_of_getElem? hget⟩
  rw [h.loads_length]
  exact (mem_allPackets h.size_lt).mp (h.places.mem_iff.mp (List.mem_of_getElem? hget))

theorem wordAt_lt (h : HeapArrays n loads heap) {place : Nat} (hplace : place < n) :
    wordAt heap place < n := by
  obtain ⟨partition, -, hlt, hword⟩ := h.read hplace
  rw [hword, ← h.loads_length]
  exact hlt

theorem wordAt_inj (h : HeapArrays n loads heap) {i j : Nat} (hi : i < n) (hj : j < n)
    (heq : wordAt heap i = wordAt heap j) : i = j := by
  have hnodup : heap.Nodup := h.places.nodup_iff.mpr (nodup_allPackets h.size_lt)
  obtain ⟨p, hp, -, hwp⟩ := h.read hi
  obtain ⟨q, hq, -, hwq⟩ := h.read hj
  obtain rfl : p = q := UInt32.toNat_inj.mp (by rw [← hwp, ← hwq, heq])
  exact (List.getElem?_inj (h.length ▸ hi) hnodup).mp (hp.trans hq.symm)

/-- Every partition stands somewhere in the heap. -/
theorem exists_place (h : HeapArrays n loads heap) {partition : Nat} (hp : partition < n) :
    ∃ place, place < n ∧ wordAt heap place = partition := by
  have hsize := h.size_lt
  have hword : (UInt32.ofNat partition).toNat = partition := by
    rw [UInt32.toNat_ofNat']
    exact Nat.mod_eq_of_lt (by omega)
  have hmem : UInt32.ofNat partition ∈ heap :=
    h.places.mem_iff.mpr ((mem_allPackets h.size_lt).mpr (by rw [hword]; exact hp))
  obtain ⟨place, hplace, hget⟩ := List.mem_iff_getElem.mp hmem
  refine ⟨place, h.length ▸ hplace, ?_⟩
  rw [wordAt_of_getElem? (List.getElem?_eq_getElem hplace), hget, hword]

end HeapArrays

/-- What the choice between the children at `left` and behind it comes to. -/
structure LeastChild (loads : List UInt64) (heap : List UInt32) (n left child : Nat) : Prop where
  lt : child < n
  place : child = left ∨ child = left + 1
  le_left : placeKey loads heap child ≤ placeKey loads heap left
  le_right : left + 1 < n → placeKey loads heap child ≤ placeKey loads heap (left + 1)

theorem leastChild_spec {n : Nat} {loads : List UInt64} {heap : List UInt32} {size left : UInt32}
    (h : HeapArrays n loads heap) (hsize : size.toNat = n) (hleft : left.toNat < n) :
    ∃ child : UInt32, leastChild loads size left heap = Except.ok child ∧
      LeastChild loads heap n left.toNat child.toNat := by
  have hn := h.size_lt
  have hright : (left + 1).toNat = left.toNat + 1 := toNat_add_one (by omega)
  rw [leastChild]
  by_cases hlt : left + 1 < size
  · rw [if_pos hlt]
    have hrightLt : left.toNat + 1 < n := by
      rw [UInt32.lt_iff_toNat_lt, hright, hsize] at hlt
      exact hlt
    obtain ⟨p, hp, hpl, hpw⟩ := h.read hleft
    obtain ⟨q, hq, hql, hqw⟩ := h.read hrightLt
    rw [hright, fetch_of_lt hq, ok_bind, fetch_of_lt hp, ok_bind, partitionLoadHeapLess_eq hql hpl,
      ok_bind]
    have hkeyl : placeKey loads heap left.toNat = loadKey loads p.toNat := congrArg (loadKey loads) hpw
    have hkeyr : placeKey loads heap (left.toNat + 1) = loadKey loads q.toNat := congrArg (loadKey loads) hqw
    by_cases hless : loadKey loads q.toNat < loadKey loads p.toNat
    · refine ⟨left + 1, by simp [hless, pure, Except.pure], ?_⟩
      rw [hright]
      refine ⟨hrightLt, Or.inr rfl, ?_, fun _ => le_refl _⟩
      rw [hkeyl, hkeyr]
      exact le_of_lt hless
    · refine ⟨left, by simp [hless, pure, Except.pure], hleft, Or.inl rfl, le_refl _, fun _ => ?_⟩
      rw [hkeyl, hkeyr]
      exact not_lt.mp hless
  · rw [if_neg hlt]
    refine ⟨left, rfl, hleft, Or.inl rfl, le_refl _, fun hbad => ?_⟩
    rw [UInt32.lt_iff_toNat_lt, hright, hsize] at hlt
    exact absurd hbad hlt

/-- **One turn of the loop at a place that has a child**: the place is exchanged with its smaller
child when that child has the smaller key, and the loop ends otherwise. -/
theorem sift_step {n : Nat} {loads : List UInt64} {heap : List UInt32} {size : UInt32}
    (root : UInt32) (h : HeapArrays n loads heap) (hsize : size.toNat = n) (hroot : root.toNat < n)
    (hleft : (root * 2 + 1).toNat < n) (fuel : Nat) :
    ∃ child : UInt32, LeastChild loads heap n (root * 2 + 1).toNat child.toNat ∧
      siftDownPartitionLoadHeap loads size (fuel + 1) root heap =
        if placeKey loads heap child.toNat < placeKey loads heap root.toNat then
          siftDownPartitionLoadHeap loads size fuel child (swapAt heap root.toNat child.toNat)
        else Except.ok heap := by
  obtain ⟨child, hchild, hspec⟩ := leastChild_spec h hsize hleft
  refine ⟨child, hspec, ?_⟩
  have hinside : ¬ (root * 2 + 1 ≥ size) := by
    rw [ge_iff_le, UInt32.le_iff_toNat_le, hsize]
    omega
  obtain ⟨p, hp, hpl, hpw⟩ := h.read hspec.lt
  obtain ⟨q, hq, hql, hqw⟩ := h.read hroot
  have hlen := h.length
  have hkeyp : placeKey loads heap child.toNat = loadKey loads p.toNat := congrArg (loadKey loads) hpw
  have hkeyq : placeKey loads heap root.toNat = loadKey loads q.toNat := congrArg (loadKey loads) hqw
  rw [siftDownPartitionLoadHeap]
  simp only [if_neg hinside]
  rw [hchild, ok_bind, fetch_of_lt hp, ok_bind, fetch_of_lt hq, ok_bind,
    partitionLoadHeapLess_eq hpl hql, ok_bind, hkeyp, hkeyq]
  by_cases hless : loadKey loads p.toNat < loadKey loads q.toNat
  · rw [if_pos hless, decide_eq_true hless, if_pos rfl, assign_of_lt (by omega), ok_bind,
      assign_of_lt (by
        rw [List.length_set, hlen]
        exact hspec.lt), ok_bind, swapAt, List.getD_eq_getElem?_getD, List.getD_eq_getElem?_getD,
      hp, hq]
    rfl
  · rw [if_neg hless, decide_eq_false hless, if_neg (by simp)]
    rfl

/-- The loop ends at a place without children. -/
theorem sift_leaf {loads : List UInt64} {heap : List UInt32} {size root : UInt32}
    (hleft : size.toNat ≤ (root * 2 + 1).toNat) (fuel : Nat) :
    siftDownPartitionLoadHeap loads size (fuel + 1) root heap = Except.ok heap := by
  have houtside : root * 2 + 1 ≥ size := by
    rw [ge_iff_le, UInt32.le_iff_toNat_le]
    exact hleft
  rw [siftDownPartitionLoadHeap]
  simp only [if_pos houtside]
  rfl

/-! ### Sinking in a heap of at most 2^31 places -/

theorem toNat_child (root : UInt32) (h : root.toNat < 2 ^ 31) :
    (root * 2 + 1).toNat = 2 * root.toNat + 1 := by
  rw [UInt32.toNat_add, UInt32.toNat_mul]
  show (root.toNat * 2 % 2 ^ 32 + 1) % 2 ^ 32 = _
  omega

/-- **Sinking repairs a heap with a hole**, in at most as many turns as there are places behind
the hole. -/
theorem ends_siftDown {n : Nat} {loads : List UInt64} {size : UInt32} (hn : n ≤ 2 ^ 31)
    (hsize : size.toNat = n) (fuel : Nat) (root : UInt32) (heap : List UInt32)
    (h : HeapArrays n loads heap) (hroot : root.toNat < n) (hfuel : n ≤ root.toNat + fuel)
    (hheap : HeapExcept (placeKey loads heap) n root.toNat) :
    Ends (siftDownPartitionLoadHeap loads size fuel root heap)
      (fun heap' => HeapArrays n loads heap' ∧ IsHeap (placeKey loads heap') n) E := by
  induction fuel generalizing root heap with
  | zero => omega
  | succ fuel ih =>
      have hleft := toNat_child root (by omega)
      rcases Nat.lt_or_ge (2 * root.toNat + 1) n with hin | hout
      · obtain ⟨child, hspec, hstep⟩ := sift_step root h hsize hroot (by omega) fuel
        rw [hleft] at hspec
        have hplace := hspec.place
        have hchildren : ∀ i, 0 < i → i < n → (i - 1) / 2 = root.toNat →
            placeKey loads heap child.toNat ≤ placeKey loads heap i := by
          intro i hpos hi hparent
          rcases show i = 2 * root.toNat + 1 ∨ i = 2 * root.toNat + 1 + 1 by omega with rfl | rfl
          · exact hspec.le_left
          · exact hspec.le_right hi
        rw [hstep]
        by_cases hless : placeKey loads heap child.toNat < placeKey loads heap root.toNat
        · rw [if_pos hless]
          -- the hole moves to the child, which lies behind the root
          have hswap : ∀ k, placeKey loads (swapAt heap root.toNat child.toNat) k = _ :=
            placeKey_swapAt (h.length ▸ hroot) (h.length ▸ hspec.lt)
          refine ih child _ (h.swap hroot hspec.lt) hspec.lt (by omega) ?_
          refine hheap.sink (by omega) hspec.lt (by omega) hchildren (le_of_lt hless) ?_ ?_ ?_
          · rw [hswap, if_neg (by omega), if_pos rfl]
          · rw [hswap, if_pos rfl]
          · intro i hir hic
            rw [hswap, if_neg hic, if_neg hir]
        · rw [if_neg hless]
          refine ends_pure ⟨h, hheap.close fun i hpos hi hparent => ?_⟩
          exact le_trans (not_lt.mp hless) (hchildren i hpos hi hparent)
      · rw [sift_leaf (by omega) fuel]
        refine ends_pure ⟨h, hheap.close fun i hpos hi hparent => ?_⟩
        omega

/-! ### The first heap -/

theorem wordAt_allPackets {n i : Nat} (hn : n < 2 ^ 32) (hi : i < n) :
    wordAt (allPackets n) i = i := by
  have hget : (allPackets n)[i]? = some (UInt32.ofNat i) := by
    rw [allPackets, List.getElem?_map, List.getElem?_range hi]
    rfl
  rw [wordAt_of_getElem? hget, UInt32.toNat_ofNat']
  exact Nat.mod_eq_of_lt (by omega)

theorem heapArrays_allPackets {n : Nat} (hn : n < 2 ^ 32) (loads : List UInt64)
    (hloads : loads.length = n) : HeapArrays n loads (allPackets n) :=
  ⟨List.Perm.refl _, hloads, hn⟩

theorem placeKey_allPackets {n i : Nat} (hn : n < 2 ^ 32) (hi : i < n) :
    placeKey (List.replicate n 0) (allPackets n) i = toLex (0, i) := by
  rw [placeKey, wordAt_allPackets hn hi, loadKey, List.getD_eq_getElem?_getD,
    List.getElem?_replicate, if_pos hi]
  rfl

/-- With no loads the partitions in their natural order are a heap. -/
theorem isHeap_allPackets {n : Nat} (hn : n < 2 ^ 32) :
    IsHeap (placeKey (List.replicate n 0) (allPackets n)) n := by
  intro i hpos hi
  rw [placeKey_allPackets hn (by omega), placeKey_allPackets hn hi]
  exact le_of_lt (Prod.Lex.toLex_lt_toLex.mpr (Or.inr ⟨rfl, by show (i - 1) / 2 < i; omega⟩))

/-- Building the heap changes nothing: without loads the natural order is a heap already. -/
theorem ends_initialize (fuel : Nat) {n : Nat} {heap : List UInt32} (hn : n < 2 ^ 32)
    (hlen : heap.length = n) (hE : fuel = 0 → E .stillRunning) :
    Ends (initializePartitionLoadHeap fuel (List.replicate n 0) heap)
      (fun heap' => heap' = allPackets n) E := by
  subst hlen
  have hsize : (UInt32.ofNat heap.length).toNat = heap.length := by
    rw [UInt32.toNat_ofNat']
    exact Nat.mod_eq_of_lt hn
  refine ends_forRange (fun _ now => now = allPackets heap.length) rfl ?_
  rintro turn now hturn rfl
  have hroot : (UInt32.ofNat (heap.length / 2 - turn - 1)).toNat = heap.length / 2 - turn - 1 := by
    rw [UInt32.toNat_ofNat']
    exact Nat.mod_eq_of_lt (by omega)
  cases fuel with
  | zero => exact ends_leave (hE rfl)
  | succ fuel =>
      have hleft := toNat_child (UInt32.ofNat (heap.length / 2 - turn - 1))
        (by rw [hroot]; omega)
      have harrays := heapArrays_allPackets hn (List.replicate heap.length 0) List.length_replicate
      obtain ⟨child, hspec, hstep⟩ := sift_step
        (UInt32.ofNat (heap.length / 2 - turn - 1)) harrays hsize (by omega) (by omega) fuel
      have hplace := hspec.place
      rw [hstep, if_neg ?_]
      · exact rfl
      · rw [placeKey_allPackets hn hspec.lt, placeKey_allPackets hn (by omega), not_lt]
        refine le_of_lt (Prod.Lex.toLex_lt_toLex.mpr (Or.inr ⟨rfl, ?_⟩))
        show (UInt32.ofNat (heap.length / 2 - turn - 1)).toNat < child.toNat
        omega

end RunD
