/-
The cache over its runs.

Between two calls the map and the list hold the same entries and the cached bytes
are the sizes of the entries together (`Sound`).  A call first brings the entry
it names to the front, or puts a new one there; this is the list `offered`, in
the order of last use.  What is then kept is the longest initial part within the
capacity (`evictLoop_keeps`).  Each entry has the bytes that were put last for
its id, so that a hit returns them (`spillCache_transparent`).
-/
import Mathlib.Data.List.Nodup
import RunD.SpillCache

namespace RunD.SpillCache

/-! ### Sound caches -/

/-- The size of an entry. -/
def Entry.size (entry : Entry) : Nat := entry.bytes.length

/-- The entries, the one used last in front. -/
def Cache.entries (cache : Cache) : List Entry := cache.order.map Prod.snd

/-- How the map refers to a node. -/
def pairOf (item : Nat × Entry) : UInt64 × Nat := (item.2.chunkId, item.1)

/-- The ids of nodes. -/
def idsOf (order : List (Nat × Entry)) : List UInt64 := order.map fun item => item.2.chunkId

/-- The bytes of nodes together. -/
def bytesOf (order : List (Nat × Entry)) : Nat := total (fun item => item.2.size) order

/-- A cache whose map, list and counter agree. -/
structure Sound (cache : Cache) : Prop where
  nodes : (cache.order.map Prod.fst).Nodup
  below : ∀ item ∈ cache.order, item.1 < cache.fresh
  ids : (idsOf cache.order).Nodup
  mapped : cache.byId.Perm (cache.order.map pairOf)
  counted : cache.cachedBytes.toNat = bytesOf cache.order

theorem byteCount_toNat {bytes : List UInt8} (h : bytes.length < 2 ^ 64) :
    (byteCount bytes).toNat = bytes.length :=
  UInt64.toNat_ofNat_of_lt' h

namespace Sound

variable {cache : Cache} (h : Sound cache)

include h

theorem keys_nodup : (cache.byId.map Prod.fst).Nodup := by
  have hperm := h.mapped.map Prod.fst
  rw [List.map_map] at hperm
  exact hperm.nodup_iff.mpr h.ids

/-- A node that the map has for an id is the node of an entry with this id. -/
theorem mem_of_findNode {chunkId : UInt64} {node : Nat}
    (hfind : findNode cache.byId chunkId = some node) :
    ∃ entry, (node, entry) ∈ cache.order ∧ entry.chunkId = chunkId := by
  rw [findNode, Option.map_eq_some_iff] at hfind
  obtain ⟨pair, hpair, rfl⟩ := hfind
  have hmem := h.mapped.mem_iff.mp (List.mem_of_find?_eq_some hpair)
  have hkey : pair.1 = chunkId := by simpa using List.find?_some hpair
  obtain ⟨item, hitem, rfl⟩ := List.mem_map.mp hmem
  exact ⟨item.2, hitem, hkey⟩

/-- When the map has no node for an id, no entry has it. -/
theorem notMem_of_findNode {chunkId : UInt64} (hfind : findNode cache.byId chunkId = none) :
    chunkId ∉ idsOf cache.order := by
  intro hmem
  obtain ⟨item, hitem, rfl⟩ := List.mem_map.mp hmem
  rw [findNode, Option.map_eq_none_iff, List.find?_eq_none] at hfind
  have hpair := h.mapped.mem_iff.mpr (List.mem_map_of_mem (f := pairOf) hitem)
  exact hfind _ hpair (decide_eq_true rfl)

/-- The places around an entry, none of which has its address or its id. -/
theorem split {node : Nat} {entry : Entry} (hmem : (node, entry) ∈ cache.order) :
    ∃ front back, cache.order = front ++ (node, entry) :: back ∧
      (∀ item ∈ front ++ back, item.1 ≠ node) ∧ entry.chunkId ∉ idsOf (front ++ back) := by
  obtain ⟨front, back, hsplit⟩ := List.append_of_mem hmem
  have hnodes := h.nodes
  have hids := h.ids
  rw [hsplit] at hnodes hids
  have hnodes' : ((node, entry) :: (front ++ back)).map Prod.fst |>.Nodup :=
    (List.perm_middle.map Prod.fst).nodup_iff.mp hnodes
  have hids' : (idsOf ((node, entry) :: (front ++ back))).Nodup :=
    (List.perm_middle.map _).nodup_iff.mp hids
  refine ⟨front, back, hsplit, ?_, (List.nodup_cons.mp hids').1⟩
  intro item hitem heq
  exact (List.nodup_cons.mp hnodes').1 (List.mem_map.mpr ⟨item, hitem, heq⟩)

/-- Each entry is as long as a word can say. -/
theorem size_lt {item : Nat × Entry} (hmem : item ∈ cache.order) :
    item.2.bytes.length < 2 ^ 64 := by
  have hle := @size_le_total _ (fun item : Nat × Entry => item.2.size) _ _ hmem
  have hcounted := h.counted
  have hlt := cache.cachedBytes.toNat_lt
  rw [bytesOf] at hcounted
  rw [Entry.size] at hle
  omega

/-- Soundness does not depend on the order of the nodes. -/
theorem reorder {order : List (Nat × Entry)} (hperm : order.Perm cache.order)
    {hits : UInt64} : Sound { cache with order := order, hits := hits } := by
  refine ⟨?_, ?_, ?_, ?_, ?_⟩
  · exact (hperm.map Prod.fst).nodup_iff.mpr h.nodes
  · exact fun item hitem => h.below item (hperm.mem_iff.mp hitem)
  · exact (hperm.map _).nodup_iff.mpr h.ids
  · exact h.mapped.trans (hperm.map pairOf).symm
  · exact h.counted.trans (total_perm hperm).symm

/-! ### Eviction -/

/-- The last entry is dropped. -/
theorem drop {init : List (Nat × Entry)} {last : Nat × Entry}
    (hsplit : cache.order = init ++ [last]) (evictions : UInt64) :
    Sound
      { cache with
        cachedBytes := cache.cachedBytes - byteCount last.2.bytes
        byId := cache.byId.filter fun pair => pair.1 ≠ last.2.chunkId
        order := init
        evictions := evictions } := by
  have hnodes := h.nodes
  have hids := h.ids
  have hmapped := h.mapped
  have hcounted := h.counted
  have hlast : last ∈ cache.order := by
    rw [hsplit]
    exact List.mem_append_right init (List.mem_singleton_self last)
  have hsize := byteCount_toNat (h.size_lt hlast)
  rw [hsplit] at hnodes hids hmapped hcounted
  rw [idsOf, List.map_append] at hids
  have hnew : last.2.chunkId ∉ idsOf init := by
    intro hmem
    exact (List.nodup_append.mp hids).2.2 _ hmem _ (List.mem_singleton_self _) rfl
  have hsum : bytesOf (init ++ [last]) = bytesOf init + last.2.bytes.length := by
    rw [bytesOf, total_append, total_cons, total_nil]
    rfl
  refine ⟨?_, ?_, ?_, ?_, ?_⟩
  · rw [List.map_append] at hnodes
    exact (List.nodup_append.mp hnodes).1
  · exact fun item hitem => h.below item (hsplit ▸ List.mem_append_left [last] hitem)
  · exact (List.nodup_append.mp hids).1
  · have hfilter := hmapped.filter fun pair => decide (pair.1 ≠ last.2.chunkId)
    have hkept : (init.map pairOf).filter (fun pair => decide (pair.1 ≠ last.2.chunkId)) =
        init.map pairOf := by
      apply List.filter_eq_self.mpr
      intro pair hpair
      obtain ⟨item, hitem, rfl⟩ := List.mem_map.mp hpair
      exact decide_eq_true fun heq => hnew (heq ▸ List.mem_map_of_mem hitem)
    rw [List.map_append, List.filter_append, hkept, List.map_singleton,
      List.filter_cons_of_neg (by simp [pairOf]), List.filter_nil, List.append_nil] at hfilter
    exact hfilter
  · show (cache.cachedBytes - byteCount last.2.bytes).toNat = bytesOf init
    rw [UInt64.toNat_sub_of_le, hsize]
    · omega
    · rw [UInt64.le_iff_toNat_le, hsize]
      omega

end Sound

/-- What an eviction leaves. -/
structure Evicted (cache after : Cache) : Prop where
  sound : Sound after
  capacity : after.capacityBytes = cache.capacityBytes
  keeps : Keeps (fun item => item.2.size) cache.capacityBytes.toNat cache.order after.order

/-- **The entries used longest ago are dropped, and no more of them than needed.** -/
theorem evictLoop_keeps {turns : Nat} {cache : Cache} (h : Sound cache)
    (hturns : cache.order.length ≤ turns) : Evicted cache (evictLoop turns cache) := by
  induction turns generalizing cache with
  | zero =>
      have hnil := List.eq_nil_of_length_eq_zero (Nat.le_zero.mp hturns)
      refine ⟨h, rfl, Keeps.all ?_⟩
      rw [hnil]
      exact Nat.zero_le _
  | succ turns ih =>
      rw [evictLoop]
      rcases List.eq_nil_or_concat cache.order with hnil | ⟨init, last, hsplit⟩
      · rw [hnil]
        refine ⟨h, rfl, Keeps.all ?_⟩
        rw [hnil]
        exact Nat.zero_le _
      · rw [List.concat_eq_append] at hsplit
        have hlast : cache.order.getLast? = some last := by
          rw [hsplit, List.getLast?_append, List.getLast?_singleton]
          rfl
        rw [hlast]
        dsimp only
        by_cases hover : cache.cachedBytes > cache.capacityBytes
        · have hinit : cache.order.dropLast = init := by
            rw [hsplit, List.dropLast_concat]
          have hshort : init.length ≤ turns := by
            rw [hsplit, List.length_append, List.length_singleton] at hturns
            omega
          rw [if_pos hover, hinit]
          obtain ⟨hsound, hcapacity, hkeeps⟩ :=
            ih (h.drop hsplit (counterSaturatingAdd cache.evictions 1)) hshort
          refine ⟨hsound, hcapacity, ?_⟩
          have hbig : cache.capacityBytes.toNat < bytesOf (init ++ [last]) := by
            rw [← hsplit, ← h.counted]
            exact UInt64.lt_iff_toNat_lt.mp hover
          rw [hsplit]
          exact hkeeps.dropLast hbig
        · rw [if_neg hover]
          refine ⟨h, rfl, Keeps.all ?_⟩
          have hfits := UInt64.le_iff_toNat_le.mp (UInt64.not_lt.mp hover)
          rw [h.counted] at hfits
          exact hfits

theorem evictOverBudget_keeps {cache : Cache} (h : Sound cache) :
    Evicted cache (evictOverBudget cache) :=
  evictLoop_keeps h (Nat.le_refl _)

/-! ### The list that a call offers -/

/-- An entry with an id is found, or there is none. -/
theorem findNode_cases {cache : Cache} (h : Sound cache) (chunkId : UInt64) :
    (findNode cache.byId chunkId = none ∧ chunkId ∉ idsOf cache.order) ∨
      ∃ node entry front back, findNode cache.byId chunkId = some node ∧
        entry.chunkId = chunkId ∧ cache.order = front ++ (node, entry) :: back ∧
        (∀ item ∈ front ++ back, item.1 ≠ node) ∧ chunkId ∉ idsOf (front ++ back) := by
  cases hfind : findNode cache.byId chunkId with
  | none => exact Or.inl ⟨rfl, h.notMem_of_findNode hfind⟩
  | some node =>
      obtain ⟨entry, hmem, rfl⟩ := h.mem_of_findNode hfind
      obtain ⟨front, back, hsplit, hother, hid⟩ := h.split hmem
      exact Or.inr ⟨node, entry, front, back, rfl, rfl, hsplit, hother, hid⟩

theorem find_node {front back : List (Nat × Entry)} {node : Nat} (entry : Entry)
    (hother : ∀ item ∈ front ++ back, item.1 ≠ node) :
    (front ++ (node, entry) :: back).find? (fun item => item.1 = node) = some (node, entry) := by
  have hnone : front.find? (fun item => decide (item.1 = node)) = none := by
    rw [List.find?_eq_none]
    intro item hitem
    simpa using hother item (List.mem_append_left back hitem)
  rw [List.find?_append, hnone, List.find?_cons_of_pos (by simp)]
  rfl

theorem entryAt_eq {front back : List (Nat × Entry)} {node : Nat} (entry : Entry)
    (hother : ∀ item ∈ front ++ back, item.1 ≠ node) :
    entryAt (front ++ (node, entry) :: back) node = Except.ok entry := by
  rw [entryAt, find_node entry hother]
  rfl

theorem spliceFront_eq {front back : List (Nat × Entry)} {node : Nat} (entry : Entry)
    (hother : ∀ item ∈ front ++ back, item.1 ≠ node) :
    spliceFront (front ++ (node, entry) :: back) node =
      Except.ok ((node, entry) :: (front ++ back)) := by
  have hfront : ∀ item ∈ front, ¬ decide (item.1 = node) = true := by
    intro item hitem
    simpa using hother item (List.mem_append_left back hitem)
  rw [spliceFront, find_node entry hother, List.eraseP_append_right _ hfront,
    List.eraseP_cons_of_pos (by simp)]
  rfl

theorem replaceBytes_eq {front back : List (Nat × Entry)} {node : Nat} (entry : Entry)
    (hother : ∀ item ∈ front ++ back, item.1 ≠ node) (bytes : List UInt8) :
    replaceBytes (front ++ (node, entry) :: back) node bytes =
      front ++ (node, { entry with bytes }) :: back := by
  have hsame : ∀ part : List (Nat × Entry), (∀ item ∈ part, item.1 ≠ node) →
      part.map (fun item => if item.1 = node then (item.1, { item.2 with bytes }) else item) =
        part := by
    intro part hpart
    refine (List.map_congr_left fun item hitem => ?_).trans (List.map_id part)
    exact if_neg (hpart item hitem)
  rw [replaceBytes, List.map_append, List.map_cons, if_pos rfl,
    hsame front fun item hitem => hother item (List.mem_append_left back hitem),
    hsame back fun item hitem => hother item (List.mem_append_right front hitem)]

/-- Assigning the node that an id has changes nothing. -/
theorem Sound.assignNode_eq {cache : Cache} (h : Sound cache) {chunkId : UInt64} {node : Nat}
    (hfind : findNode cache.byId chunkId = some node) :
    assignNode cache.byId chunkId node = cache.byId := by
  rw [findNode, Option.map_eq_some_iff] at hfind
  obtain ⟨pair, hpair, rfl⟩ := hfind
  have hmem := List.mem_of_find?_eq_some hpair
  have hkey : pair.1 = chunkId := by simpa using List.find?_some hpair
  refine (List.map_congr_left fun other hother => ?_).trans (List.map_id cache.byId)
  by_cases hsame : other.1 = chunkId
  · have heq : other = pair :=
      List.inj_on_of_nodup_map h.keys_nodup hother hmem (hsame.trans hkey.symm)
    rw [if_pos hsame, heq]
    rfl
  · exact if_neg hsame

/-- The ids of a list from which an entry came to the front. -/
theorem idsOf_front {front back : List (Nat × Entry)} {node : Nat} {entry : Entry}
    (hid : entry.chunkId ∉ idsOf (front ++ back)) :
    idsOf ((node, entry) :: (front ++ back)) =
      useFirst entry.chunkId (idsOf (front ++ (node, entry) :: back)) := by
  rw [idsOf, List.map_append] at hid
  have hfront : entry.chunkId ∉ front.map fun item => item.2.chunkId :=
    fun hmem => hid (List.mem_append_left _ hmem)
  show entry.chunkId :: idsOf (front ++ back) = entry.chunkId :: _
  rw [idsOf, idsOf, List.map_append, List.map_append, List.map_cons,
    List.erase_append_right _ hfront, List.erase_cons_head]

/-! ### Histories -/

section Runs

variable {H : ByteHasher}

/-- The id that a call names. -/
def Call.named : Call H → Option UInt64
  | .put chunkId _ => some chunkId
  | .get chunkId => some chunkId
  | .read chunkId _ _ => some chunkId
  | .matchesBytes chunkId _ _ => some chunkId
  | .clear => none

/-- The ids that were named since the cache was cleared, the one named last in front. -/
def recentNames (history : List (Call H)) : List UInt64 :=
  history.foldl (fun names call =>
    match call.named with
    | some chunkId => useFirst chunkId names
    | none => []) []

/-- The bytes put last for each id since the cache was cleared. -/
def lastPut (history : List (Call H)) : UInt64 → Option (List UInt8) :=
  history.foldl (fun known call =>
    match call with
    | .put chunkId bytes => Function.update known chunkId (some bytes)
    | .clear => fun _ => none
    | _ => known) fun _ => none

theorem recentNames_concat (history : List (Call H)) (call : Call H) :
    recentNames (history ++ [call]) =
      match call.named with
      | some chunkId => useFirst chunkId (recentNames history)
      | none => [] := by
  rw [recentNames, List.foldl_append]
  rfl

theorem lastPut_concat (history : List (Call H)) (call : Call H) :
    lastPut (history ++ [call]) =
      match call with
      | .put chunkId bytes => Function.update (lastPut history) chunkId (some bytes)
      | .clear => fun _ => none
      | _ => lastPut history := by
  rw [lastPut, List.foldl_append]
  rfl

/-- The bytes that are in the cache and those that are put all have addresses. -/
def Addressable (cache : Cache) : Call H → Prop
  | .put _ bytes => bytesOf cache.order + bytes.length < 2 ^ 64
  | _ => True

/-- The runs of a cache with some capacity, by their history. -/
inductive Runs (capacity : UInt64) : List (Call H) → Cache → Prop where
  | start : Runs capacity [] { capacityBytes := capacity }
  | step {history : List (Call H)} {before after : Cache} {call : Call H} {reply : Reply H} :
      Runs capacity history before → Addressable before call →
      call.run before = Except.ok (after, reply) → Runs capacity (history ++ [call]) after

/-- The entry of an id in front of the others. -/
def moveFirst (entries : List Entry) (chunkId : UInt64) : List Entry :=
  match entries.find? fun entry => entry.chunkId = chunkId with
  | some entry => entry :: entries.filter fun other => other.chunkId ≠ chunkId
  | none => entries

/-- The entries among which the capacity decides: those before the call, with the entry that it
names in front. -/
def offered (capacity : UInt64) (entries : List Entry) : Call H → List Entry
  | .put chunkId bytes =>
      if (∃ entry ∈ entries, entry.chunkId = chunkId) ∨ bytes.length ≤ capacity.toNat then
        ⟨chunkId, bytes⟩ :: entries.filter fun other => other.chunkId ≠ chunkId
      else entries
  | .get chunkId => moveFirst entries chunkId
  | .read chunkId _ _ => moveFirst entries chunkId
  | .matchesBytes chunkId _ _ => moveFirst entries chunkId
  | .clear => []

/-- A reply that fits the bytes known for the ids, given the entries before the call: a hit shows
the bytes of its id, and a miss is about an id that has no entry. -/
def Faithful (known : UInt64 → Option (List UInt8)) (entries : List Entry) :
    Call H → Reply H → Prop
  | .put _ _, .done => True
  | .get chunkId, .got (some bytes) => known chunkId = some bytes
  | .get chunkId, .got none => ∀ entry ∈ entries, entry.chunkId ≠ chunkId
  | .read chunkId output recordHash, .read result output' recordHash' =>
      match result with
      | some true => known chunkId = some output' ∧ recordHash' = absorb H recordHash output'
      | some false => (∃ bytes, known chunkId = some bytes ∧ bytes.length ≠ output.length) ∧
          output' = output ∧ recordHash' = recordHash
      | none => (∀ entry ∈ entries, entry.chunkId ≠ chunkId) ∧ output' = output ∧
          recordHash' = recordHash
  | .matchesBytes chunkId expected recordHash, .matched result recordHash' =>
      match result with
      | some true => known chunkId = some expected ∧ recordHash' = absorb H recordHash expected
      | some false => (∃ bytes, known chunkId = some bytes ∧ bytes ≠ expected) ∧
          recordHash' = recordHash
      | none => (∀ entry ∈ entries, entry.chunkId ≠ chunkId) ∧ recordHash' = recordHash
  | .clear, .done => True
  | _, _ => False

/-- What a cache has after a history: it is sound and within its capacity, its entries are in the
order of last use, and they have the bytes put last. -/
structure Traced (capacity : UInt64) (history : List (Call H)) (cache : Cache) : Prop where
  sound : Sound cache
  sameCapacity : cache.capacityBytes = capacity
  within : cache.cachedBytes ≤ capacity
  recent : (idsOf cache.order).Sublist (recentNames history)
  known : ∀ item ∈ cache.order, lastPut history item.2.chunkId = some item.2.bytes

/-! ### One call -/

variable {capacity : UInt64} {history : List (Call H)} {before : Cache}

/-- The entries in the order of the list, with the one that is named in front. -/
theorem moveFirst_eq {front back : List (Nat × Entry)} {node : Nat} {entry : Entry}
    (hid : entry.chunkId ∉ idsOf (front ++ back)) :
    moveFirst ((front ++ (node, entry) :: back).map Prod.snd) entry.chunkId =
        entry :: (front ++ back).map Prod.snd ∧
      ((front ++ (node, entry) :: back).map Prod.snd).filter
        (fun other => other.chunkId ≠ entry.chunkId) = (front ++ back).map Prod.snd := by
  have hother : ∀ item ∈ front ++ back, item.2.chunkId ≠ entry.chunkId :=
    fun item hitem heq => hid (List.mem_map.mpr ⟨item, hitem, heq⟩)
  have hkept : ∀ part : List (Nat × Entry), (∀ item ∈ part, item.2.chunkId ≠ entry.chunkId) →
      (part.map Prod.snd).filter (fun other => decide (other.chunkId ≠ entry.chunkId)) =
        part.map Prod.snd := by
    intro part hpart
    apply List.filter_eq_self.mpr
    intro other hmem
    obtain ⟨item, hitem, rfl⟩ := List.mem_map.mp hmem
    exact decide_eq_true (hpart item hitem)
  have hfront := hkept front fun item hitem => hother item (List.mem_append_left back hitem)
  have hback := hkept back fun item hitem => hother item (List.mem_append_right front hitem)
  have hfilter : ((front ++ (node, entry) :: back).map Prod.snd).filter
      (fun other => decide (other.chunkId ≠ entry.chunkId)) = (front ++ back).map Prod.snd := by
    rw [List.map_append, List.filter_append, hfront, List.map_cons,
      List.filter_cons_of_neg (by simp), hback, List.map_append]
  refine ⟨?_, hfilter⟩
  have hnone : (front.map Prod.snd).find? (fun other => decide (other.chunkId = entry.chunkId)) =
      none := by
    rw [List.find?_eq_none]
    intro other hmem
    obtain ⟨item, hitem, rfl⟩ := List.mem_map.mp hmem
    simpa using hother item (List.mem_append_left back hitem)
  have hfind : ((front ++ (node, entry) :: back).map Prod.snd).find?
      (fun other => decide (other.chunkId = entry.chunkId)) = some entry := by
    rw [List.map_append, List.map_cons, List.find?_append, hnone,
      List.find?_cons_of_pos (by simp)]
    rfl
  rw [moveFirst, hfind]
  dsimp only
  rw [hfilter]

/-- A touch brings the entry to the front and returns it; the calls that only look name the id
and put nothing. -/
theorem Traced.touch (h : Traced capacity history before) (chunkId : UInt64) (call : Call H)
    (hnamed : call.named = some chunkId) (hknown : lastPut (history ++ [call]) = lastPut history) :
    ∃ after entry, touch before chunkId = Except.ok (after, entry) ∧
      Traced capacity (history ++ [call]) after ∧
      after.entries = moveFirst before.entries chunkId ∧
      (∀ found, entry = some found → lastPut history chunkId = some found.bytes) ∧
      (entry = none → ∀ other ∈ before.entries, other.chunkId ≠ chunkId) := by
  have hrecent := recentNames_concat history call
  rw [hnamed] at hrecent
  rcases findNode_cases h.sound chunkId with ⟨hfind, hnot⟩ |
    ⟨node, entry, front, back, hfind, rfl, hsplit, hother, hid⟩
  · rw [SpillCache.touch, hfind]
    have hmiss : ∀ other ∈ before.entries, other.chunkId ≠ chunkId := by
      rintro other hmem rfl
      obtain ⟨item, hitem, rfl⟩ := List.mem_map.mp hmem
      exact hnot (List.mem_map_of_mem (f := fun item : Nat × Entry => item.2.chunkId) hitem)
    refine ⟨_, none, rfl, ⟨?_, h.sameCapacity, h.within, ?_, ?_⟩, ?_, ?_, fun _ => hmiss⟩
    · exact ⟨h.sound.nodes, h.sound.below, h.sound.ids, h.sound.mapped, h.sound.counted⟩
    · rw [hrecent]
      exact sublist_useFirst_of_notMem h.recent hnot
    · rw [hknown]
      exact h.known
    · have hnone : before.entries.find? (fun other => decide (other.chunkId = chunkId)) = none := by
        rw [List.find?_eq_none]
        intro other hmem
        simpa using hmiss other hmem
      have hsame : moveFirst before.entries chunkId = before.entries := by rw [moveFirst, hnone]
      rw [hsame, Cache.entries, Cache.entries]
    · intro found hfound
      cases hfound
  · have hperm : ((node, entry) :: (front ++ back)).Perm before.order := by
      rw [hsplit]
      exact List.perm_middle.symm
    have hbytes : lastPut history entry.chunkId = some entry.bytes :=
      h.known (node, entry) (hperm.mem_iff.mp (List.mem_cons_self ..))
    rw [SpillCache.touch, hfind]
    dsimp only
    rw [hsplit, spliceFront_eq entry hother, ok_bind,
      show (node, entry) :: (front ++ back) = [] ++ (node, entry) :: (front ++ back) from rfl,
      entryAt_eq entry (by rwa [List.nil_append]), ok_bind, h.sound.assignNode_eq hfind,
      List.nil_append]
    refine ⟨_, some entry, rfl, ⟨?_, h.sameCapacity, h.within, ?_, ?_⟩, ?_, ?_, ?_⟩
    · exact h.sound.reorder hperm
    · rw [hrecent]
      show (idsOf ((node, entry) :: (front ++ back))).Sublist _
      rw [idsOf_front hid, ← hsplit]
      exact sublist_useFirst entry.chunkId h.recent
    · rw [hknown]
      exact fun item hitem => h.known item (hperm.mem_iff.mp hitem)
    · rw [Cache.entries, Cache.entries, hsplit, (moveFirst_eq hid).1]
      rfl
    · rintro found ⟨⟩
      exact hbytes
    · intro hnone
      cases hnone

/-- What a cache has after its entries were cut to the capacity. -/
theorem Sound.traced_evicted {grown : Cache} (h : Sound grown)
    (hcapacity : grown.capacityBytes = capacity)
    (hrecent : (idsOf grown.order).Sublist (recentNames history))
    (hknown : ∀ item ∈ grown.order, lastPut history item.2.chunkId = some item.2.bytes) :
    Traced capacity history (evictOverBudget grown) ∧
      Keeps Entry.size capacity.toNat grown.entries (evictOverBudget grown).entries := by
  obtain ⟨hsound, hsame, hkeeps⟩ := evictOverBudget_keeps h
  rw [hcapacity] at hkeeps
  refine ⟨⟨hsound, hsame.trans hcapacity, ?_, ?_, ?_⟩, hkeeps.map⟩
  · rw [UInt64.le_iff_toNat_le, hsound.counted]
    exact hkeeps.fits
  · exact (hkeeps.prefix_of.sublist.map _).trans hrecent
  · exact fun item hitem => hknown item (hkeeps.prefix_of.subset hitem)

/-- A new entry in front. -/
theorem Sound.insert (h : Sound before) {chunkId : UInt64} (hfind : findNode before.byId chunkId = none)
    {bytes : List UInt8} (hroom : bytesOf before.order + bytes.length < 2 ^ 64) :
    Sound
      { before with
        order := (before.fresh, ⟨chunkId, bytes⟩) :: before.order
        byId := insertNode before.byId chunkId before.fresh
        fresh := before.fresh + 1
        cachedBytes := before.cachedBytes + byteCount bytes } := by
  have hsize : (byteCount bytes).toNat = bytes.length := byteCount_toNat (by omega)
  have hcounted := h.counted
  refine ⟨?_, ?_, ?_, ?_, ?_⟩
  · rw [List.map_cons, List.nodup_cons]
    refine ⟨?_, h.nodes⟩
    intro hmem
    obtain ⟨item, hitem, heq⟩ := List.mem_map.mp hmem
    exact Nat.ne_of_lt (h.below item hitem) heq
  · intro item hmem
    rcases List.mem_cons.mp hmem with rfl | hold
    · exact Nat.lt_succ_self _
    · exact Nat.lt_succ_of_lt (h.below item hold)
  · rw [idsOf, List.map_cons, List.nodup_cons]
    exact ⟨h.notMem_of_findNode hfind, h.ids⟩
  · rw [insertNode, hfind]
    exact h.mapped.cons (chunkId, before.fresh)
  · show (before.cachedBytes + byteCount bytes).toNat = bytesOf (_ :: before.order)
    rw [toNat_add_of_fits (by omega), hsize, bytesOf, total_cons, hcounted, Nat.add_comm]
    rfl

/-- The bytes of an entry are replaced, and it comes to the front. -/
theorem Sound.replace (h : Sound before) {front back : List (Nat × Entry)} {node : Nat}
    {entry : Entry} (hsplit : before.order = front ++ (node, entry) :: back) {bytes : List UInt8}
    (hroom : bytesOf before.order + bytes.length < 2 ^ 64) :
    Sound
      { before with
        cachedBytes := before.cachedBytes - byteCount entry.bytes + byteCount bytes
        order := (node, { entry with bytes }) :: (front ++ back) } := by
  have hperm : before.order.Perm ((node, entry) :: (front ++ back)) := by
    rw [hsplit]
    exact List.perm_middle
  have hentry : (byteCount entry.bytes).toNat = entry.bytes.length :=
    byteCount_toNat (h.size_lt (hperm.mem_iff.mpr (List.mem_cons_self ..)))
  have hsize : (byteCount bytes).toNat = bytes.length := byteCount_toNat (by omega)
  have hcounted := h.counted
  have hsum : bytesOf before.order = entry.bytes.length + bytesOf (front ++ back) := by
    rw [bytesOf, total_perm hperm, total_cons]
    rfl
  refine ⟨?_, ?_, ?_, ?_, ?_⟩
  · exact (hperm.map Prod.fst).nodup_iff.mp h.nodes
  · intro item hmem
    rcases List.mem_cons.mp hmem with rfl | hold
    · exact h.below (node, entry) (hperm.mem_iff.mpr (List.mem_cons_self ..))
    · exact h.below item (hperm.mem_iff.mpr (List.mem_cons_of_mem _ hold))
  · exact (hperm.map fun item : Nat × Entry => item.2.chunkId).nodup_iff.mp h.ids
  · exact h.mapped.trans (hperm.map pairOf)
  · show (before.cachedBytes - byteCount entry.bytes + byteCount bytes).toNat =
      bytesOf (_ :: (front ++ back))
    have hsub : (before.cachedBytes - byteCount entry.bytes).toNat = bytesOf (front ++ back) := by
      rw [UInt64.toNat_sub_of_le, hentry]
      · omega
      · rw [UInt64.le_iff_toNat_le, hentry]
        omega
    rw [toNat_add_of_fits (by omega), hsub, hsize, bytesOf, bytesOf, total_cons, Nat.add_comm]
    rfl

/-- **Putting bytes in.** -/
theorem Traced.put (h : Traced capacity history before) (chunkId : UInt64) (bytes : List UInt8)
    (hroom : bytesOf before.order + bytes.length < 2 ^ 64) :
    ∃ after, put before chunkId bytes = Except.ok after ∧
      Traced capacity (history ++ [.put chunkId bytes]) after ∧
      Keeps Entry.size capacity.toNat
        (offered capacity before.entries (.put chunkId bytes : Call H)) after.entries ∧
      ((offered capacity before.entries (.put chunkId bytes : Call H)).map Entry.chunkId).Sublist
        (recentNames (history ++ [.put chunkId bytes])) := by
  have hsize : (byteCount bytes).toNat = bytes.length := byteCount_toNat (by omega)
  have hnames : recentNames (history ++ [.put chunkId bytes]) =
      useFirst chunkId (recentNames history) := recentNames_concat history (.put chunkId bytes)
  have hlast : lastPut (history ++ [.put chunkId bytes]) =
      Function.update (lastPut history) chunkId (some bytes) :=
    lastPut_concat history (.put chunkId bytes)
  -- the entries of other ids have what they had
  have hothers : ∀ item ∈ before.order, item.2.chunkId ≠ chunkId →
      lastPut (history ++ [.put chunkId bytes]) item.2.chunkId = some item.2.bytes := by
    intro item hitem hne
    rw [hlast, Function.update_of_ne hne]
    exact h.known item hitem
  rcases findNode_cases h.sound chunkId with ⟨hfind, hnot⟩ |
    ⟨node, entry, front, back, hfind, rfl, hsplit, hother, hid⟩
  · have hmiss : ∀ item ∈ before.order, item.2.chunkId ≠ chunkId :=
      fun item hitem heq => hnot (List.mem_map.mpr ⟨item, hitem, heq⟩)
    have hmiss' : ¬ ∃ entry ∈ before.entries, entry.chunkId = chunkId := by
      rintro ⟨entry, hmem, heq⟩
      obtain ⟨item, hitem, rfl⟩ := List.mem_map.mp hmem
      exact hmiss item hitem heq
    have hrecent : (idsOf before.order).Sublist (recentNames (history ++ [.put chunkId bytes])) := by
      rw [hnames]
      exact sublist_useFirst_of_notMem h.recent hnot
    rw [SpillCache.put, hfind]
    dsimp only
    by_cases hbig : byteCount bytes > before.capacityBytes
    · -- bytes that do not fit are not kept at all
      have hlong : ¬ bytes.length ≤ capacity.toNat := by
        have hlt := UInt64.lt_iff_toNat_lt.mp hbig
        rw [hsize, h.sameCapacity] at hlt
        omega
      have hoffered : offered capacity before.entries (.put chunkId bytes : Call H) =
          before.entries := if_neg (not_or.mpr ⟨hmiss', hlong⟩)
      rw [if_pos hbig, hoffered]
      obtain ⟨htraced, hkeeps⟩ := h.sound.traced_evicted h.sameCapacity hrecent
        fun item hitem => hothers item hitem (hmiss item hitem)
      refine ⟨_, rfl, htraced, hkeeps, ?_⟩
      rw [Cache.entries, List.map_map]
      exact hrecent
    · have hshort : bytes.length ≤ capacity.toNat := by
        have hle := UInt64.le_iff_toNat_le.mp (UInt64.not_lt.mp hbig)
        rwa [hsize, h.sameCapacity] at hle
      have hfilter : before.entries.filter (fun other => decide (other.chunkId ≠ chunkId)) =
          before.entries := by
        apply List.filter_eq_self.mpr
        exact fun other hmem => decide_eq_true fun heq => hmiss' ⟨other, hmem, heq⟩
      have hoffered : offered capacity before.entries (.put chunkId bytes : Call H) =
          ⟨chunkId, bytes⟩ :: before.entries := by
        rw [offered, if_pos (Or.inr hshort), hfilter]
      have hfront : (chunkId :: idsOf before.order).Sublist
          (recentNames (history ++ [.put chunkId bytes])) := by
        rw [hnames]
        have hsub := sublist_useFirst chunkId h.recent
        rwa [useFirst, List.erase_of_not_mem hnot] at hsub
      rw [if_neg hbig, hoffered]
      obtain ⟨htraced, hkeeps⟩ := (h.sound.insert hfind hroom).traced_evicted h.sameCapacity
        hfront (by
          intro item hmem
          rcases List.mem_cons.mp hmem with rfl | hold
          · rw [hlast, Function.update_self]
          · exact hothers item hold (hmiss item hold))
      refine ⟨_, rfl, htraced, hkeeps, ?_⟩
      rw [Cache.entries, List.map_cons, List.map_map]
      exact hfront
  · have hoffered : offered capacity before.entries (.put entry.chunkId bytes : Call H) =
        ⟨entry.chunkId, bytes⟩ :: (front ++ back).map Prod.snd := by
      have hmem : ∃ found ∈ before.entries, found.chunkId = entry.chunkId := by
        refine ⟨entry, ?_, rfl⟩
        rw [Cache.entries, hsplit]
        exact List.mem_map_of_mem (f := Prod.snd) (List.mem_append_right front (List.mem_cons_self ..))
      rw [offered, if_pos (Or.inl hmem), Cache.entries, hsplit, (moveFirst_eq hid).2]
    have hfront : (entry.chunkId :: idsOf (front ++ back)).Sublist
        (recentNames (history ++ [.put entry.chunkId bytes])) := by
      have hsub := sublist_useFirst entry.chunkId h.recent
      rw [hsplit, ← idsOf_front hid] at hsub
      rw [hnames]
      exact hsub
    have hmoved := h.sound.replace hsplit hroom
    rw [SpillCache.put, hfind]
    dsimp only
    rw [hsplit, entryAt_eq entry hother, ok_bind, replaceBytes_eq entry hother,
      spliceFront_eq _ hother, ok_bind, h.sound.assignNode_eq hfind, hoffered]
    obtain ⟨htraced, hkeeps⟩ := hmoved.traced_evicted h.sameCapacity hfront (by
      intro item hmem
      rcases List.mem_cons.mp hmem with rfl | hold
      · rw [hlast, Function.update_self]
      · refine hothers item ?_ fun heq => hid (List.mem_map.mpr ⟨item, hold, heq⟩)
        rw [hsplit]
        exact List.perm_middle.mem_iff.mpr (List.mem_cons_of_mem _ hold))
    refine ⟨_, rfl, htraced, hkeeps, ?_⟩
    rw [List.map_cons, List.map_map]
    exact hfront

/-! ### Runs -/

theorem Traced.start (capacity : UInt64) :
    Traced capacity ([] : List (Call H)) { capacityBytes := capacity } := by
  refine ⟨⟨List.nodup_nil, ?_, List.nodup_nil, List.Perm.refl [], rfl⟩, rfl, ?_, ?_, ?_⟩
  · intro item hmem
    exact absurd hmem List.not_mem_nil
  · exact UInt64.le_iff_toNat_le.mpr (Nat.zero_le _)
  · exact List.Sublist.refl []
  · intro item hmem
    exact absurd hmem List.not_mem_nil

/-- What a call promises. -/
structure Promised (capacity : UInt64) (history : List (Call H)) (before : Cache) (call : Call H)
    (after : Cache) (reply : Reply H) : Prop where
  /-- The counter is the sum of the sizes, and within the capacity. -/
  counted : after.cachedBytes.toNat = total Entry.size after.entries
  within : after.cachedBytes ≤ capacity
  /-- The map and the list hold the same entries. -/
  mapped : after.byId.Perm (after.order.map pairOf)
  ids : (after.entries.map Entry.chunkId).Nodup
  /-- What is offered is in the order of last use, and as much of it is kept as fits. -/
  recent : ((offered capacity before.entries call).map Entry.chunkId).Sublist
    (recentNames (history ++ [call]))
  keeps : Keeps Entry.size capacity.toNat (offered capacity before.entries call) after.entries
  /-- A hit shows the bytes that were put last. -/
  faithful : Faithful (lastPut history) before.entries call reply

/-- What was traced after a call is what the call promises of the cache. -/
theorem Traced.promised {after : Cache} {call : Call H} {reply : Reply H}
    (h : Traced capacity (history ++ [call]) after)
    (hrecent : ((offered capacity before.entries call).map Entry.chunkId).Sublist
      (recentNames (history ++ [call])))
    (hkeeps : Keeps Entry.size capacity.toNat (offered capacity before.entries call) after.entries)
    (hreply : Faithful (lastPut history) before.entries call reply) :
    Promised capacity history before call after reply := by
  refine ⟨?_, h.within, h.sound.mapped, ?_, hrecent, hkeeps, hreply⟩
  · rw [h.sound.counted, bytesOf, total, total, Cache.entries, List.map_map]
    rfl
  · rw [Cache.entries, List.map_map]
    exact h.sound.ids

/-- A call that only looks keeps all entries. -/
theorem Traced.looked {after : Cache} {chunkId : UInt64} {call : Call H} {reply : Reply H}
    (h : Traced capacity (history ++ [call]) after)
    (hentries : after.entries = moveFirst before.entries chunkId)
    (hoffered : offered capacity before.entries call = moveFirst before.entries chunkId)
    (hreply : Faithful (lastPut history) before.entries call reply) :
    Promised capacity history before call after reply := by
  have hids : (after.entries.map Entry.chunkId) = idsOf after.order := by
    rw [Cache.entries, List.map_map]
    rfl
  have hbytes : total Entry.size after.entries = bytesOf after.order := by
    rw [bytesOf, total, total, Cache.entries, List.map_map]
    rfl
  apply h.promised
  · rw [hoffered, ← hentries, hids]
    exact h.recent
  · rw [hoffered, ← hentries]
    apply Keeps.all
    rw [hbytes, ← h.sound.counted]
    exact UInt64.le_iff_toNat_le.mp h.within
  · exact hreply

/-- **One call of a run.** -/
theorem Traced.call (h : Traced capacity history before) (call : Call H)
    (haddressable : Addressable before call) :
    ∃ after reply, call.run before = Except.ok (after, reply) ∧
      Traced capacity (history ++ [call]) after ∧
      Promised capacity history before call after reply := by
  cases call with
  | put chunkId bytes =>
      obtain ⟨after, hrun, htraced, hkeeps, hrecent⟩ := h.put chunkId bytes haddressable
      refine ⟨after, .done, ?_, htraced, htraced.promised hrecent hkeeps trivial⟩
      rw [Call.run, hrun]
      rfl
  | get chunkId =>
      obtain ⟨after, entry, hrun, htraced, hentries, hhit, hmiss⟩ :=
        h.touch chunkId (.get chunkId) rfl (lastPut_concat history (.get chunkId))
      refine ⟨after, .got (entry.map Entry.bytes), ?_, htraced,
        htraced.looked hentries rfl ?_⟩
      · rw [Call.run, SpillCache.get, hrun]
        rfl
      · cases entry with
        | none => exact hmiss rfl
        | some found => exact hhit found rfl
  | read chunkId output recordHash =>
      obtain ⟨after, entry, hrun, htraced, hentries, hhit, hmiss⟩ :=
        h.touch chunkId (.read chunkId output recordHash) rfl
          (lastPut_concat history (.read chunkId output recordHash))
      rw [Call.run, SpillCache.read, hrun, ok_bind]
      cases entry with
      | none =>
          exact ⟨after, .read none output recordHash, rfl, htraced,
            htraced.looked hentries rfl ⟨hmiss rfl, rfl, rfl⟩⟩
      | some found =>
          have hknown := hhit found rfl
          dsimp only
          by_cases hsize : found.bytes.length ≠ output.length
          · rw [if_pos hsize]
            exact ⟨after, .read (some false) output recordHash, rfl, htraced,
              htraced.looked hentries rfl ⟨⟨found.bytes, hknown, hsize⟩, rfl, rfl⟩⟩
          · rw [if_neg hsize]
            exact ⟨after, .read (some true) found.bytes (absorb H recordHash found.bytes), rfl,
              htraced, htraced.looked hentries rfl ⟨hknown, rfl⟩⟩
  | matchesBytes chunkId expected recordHash =>
      obtain ⟨after, entry, hrun, htraced, hentries, hhit, hmiss⟩ :=
        h.touch chunkId (.matchesBytes chunkId expected recordHash) rfl
          (lastPut_concat history (.matchesBytes chunkId expected recordHash))
      rw [Call.run, SpillCache.matchesBytes, hrun, ok_bind]
      cases entry with
      | none =>
          exact ⟨after, .matched none recordHash, rfl, htraced,
            htraced.looked hentries rfl ⟨hmiss rfl, rfl⟩⟩
      | some found =>
          have hknown := hhit found rfl
          dsimp only
          by_cases hsize : found.bytes.length ≠ expected.length
          · have hne : found.bytes ≠ expected := fun heq => hsize (by rw [heq])
            rw [if_pos hsize]
            exact ⟨after, .matched (some false) recordHash, rfl, htraced,
              htraced.looked hentries rfl ⟨⟨found.bytes, hknown, hne⟩, rfl⟩⟩
          · rw [if_neg hsize]
            by_cases hne : found.bytes ≠ expected
            · rw [if_pos hne]
              exact ⟨after, .matched (some false) recordHash, rfl, htraced,
                htraced.looked hentries rfl ⟨⟨found.bytes, hknown, hne⟩, rfl⟩⟩
            · obtain rfl := not_not.mp hne
              rw [if_neg hne]
              exact ⟨after, .matched (some true) (absorb H recordHash found.bytes), rfl, htraced,
                htraced.looked hentries rfl ⟨hknown, rfl⟩⟩
  | clear =>
      have htraced : Traced capacity (history ++ [.clear]) (SpillCache.clear before) := by
        refine ⟨⟨List.nodup_nil, ?_, List.nodup_nil, List.Perm.refl [], rfl⟩, h.sameCapacity,
          UInt64.le_iff_toNat_le.mpr (Nat.zero_le _), List.nil_sublist _, ?_⟩
        · intro item hmem
          exact absurd hmem List.not_mem_nil
        · intro item hmem
          exact absurd hmem List.not_mem_nil
      refine ⟨_, .done, rfl, htraced, htraced.promised ?_ (Keeps.all (Nat.zero_le _)) trivial⟩
      exact List.nil_sublist _

theorem Runs.traced {cache : Cache} (h : Runs capacity history cache) :
    Traced capacity history cache := by
  induction h with
  | start => exact Traced.start capacity
  | step _ haddressable hrun ih =>
      obtain ⟨after, reply, hrun', htraced, -⟩ := ih.call _ haddressable
      rw [hrun] at hrun'
      cases hrun'
      exact htraced

end Runs

/-- **The cache is transparent**: after any run, a call comes to its end, and then the counter is
the sum of the sizes and within the capacity, the map and the list hold the same entries, the
entries used longest ago are evicted and no more than needed, and a hit shows the bytes that were
put last. -/
theorem spillCache_transparent (H : ByteHasher) (capacity : UInt64) (history : List (Call H))
    (before : Cache) (call : Call H) (hruns : Runs capacity history before)
    (haddressable : Addressable before call) :
    ∃ after reply, call.run before = Except.ok (after, reply) ∧
      Promised capacity history before call after reply := by
  obtain ⟨after, reply, hrun, -, hpromised⟩ := hruns.traced.call call haddressable
  exact ⟨after, reply, hrun, hpromised⟩

/-- A second chunk is put into a cache that has room for one. -/
theorem spillCache_transparent_second :
    ∃ after reply,
      (Call.put 2 [7, 8] : Call ⟨Unit, (), fun _ _ => (), fun _ => 0, fun _ => 0, fun _ => rfl⟩).run
        { capacityBytes := 3, cachedBytes := 2, order := [(0, ⟨1, [5, 6]⟩)], byId := [(1, 0)],
          fresh := 1 } = Except.ok (after, reply) ∧
      Promised 3 [.put 1 [5, 6]]
        { capacityBytes := 3, cachedBytes := 2, order := [(0, ⟨1, [5, 6]⟩)], byId := [(1, 0)],
          fresh := 1 } (.put 2 [7, 8]) after reply :=
  spillCache_transparent ⟨Unit, (), fun _ _ => (), fun _ => 0, fun _ => 0, fun _ => rfl⟩ 3
    [.put 1 [5, 6]] _ (.put 2 [7, 8])
    (@Runs.step _ 3 [] _ _ (.put 1 [5, 6]) .done Runs.start (by show 0 + 2 < 2 ^ 64; decide) rfl)
    (by show 2 + 2 < 2 ^ 64; decide)

end RunD.SpillCache
