/-
The cache of decoded chunks in front of the spill storage.

The entries are the nodes of a list, the one used last in front, and a map leads
from the id of a chunk to its node.  Nodes have addresses here, so that what the
map holds are addresses, and following one that is not in the list is a fault.
Putting bytes in drops entries from the back of the list until the cached bytes
are within the capacity again.
-/
import RunD.Payload
import RunD.Recency

namespace RunD.SpillCache

/-! ### State -/

/-- `Cache::Entry`. -/
structure Entry where
  chunkId : UInt64
  bytes : List UInt8
  deriving DecidableEq, Repr

/-- `Cache`: `order` has the nodes with their addresses, and `fresh` is the address of the next
one. -/
structure Cache where
  capacityBytes : UInt64
  cachedBytes : UInt64 := 0
  hits : UInt64 := 0
  misses : UInt64 := 0
  evictions : UInt64 := 0
  order : List (Nat × Entry) := []
  byId : List (UInt64 × Nat) := []
  fresh : Nat := 0
  deriving DecidableEq, Repr

/-- The node of an address has to be in the list. -/
inductive Dangling where
  | dangling
  deriving DecidableEq, Repr

abbrev Caching (β : Type) := Checked Dangling β

/-- `by_id_.find`. -/
def findNode (byId : List (UInt64 × Nat)) (chunkId : UInt64) : Option Nat :=
  (byId.find? fun pair => pair.1 = chunkId).map Prod.snd

/-- An assignment to what is found at an id. -/
def assignNode (byId : List (UInt64 × Nat)) (chunkId : UInt64) (node : Nat) : List (UInt64 × Nat) :=
  byId.map fun pair => if pair.1 = chunkId then (pair.1, node) else pair

/-- `by_id_[chunk_id] = node`. -/
def insertNode (byId : List (UInt64 × Nat)) (chunkId : UInt64) (node : Nat) : List (UInt64 × Nat) :=
  match findNode byId chunkId with
  | some _ => assignNode byId chunkId node
  | none => (chunkId, node) :: byId

/-- What an address leads to. -/
def entryAt (order : List (Nat × Entry)) (node : Nat) : Caching Entry :=
  match order.find? fun item => item.1 = node with
  | some item => pure item.2
  | none => leave .dangling

/-- `order_.splice(order_.begin(), order_, node)`. -/
def spliceFront (order : List (Nat × Entry)) (node : Nat) : Caching (List (Nat × Entry)) :=
  match order.find? fun item => item.1 = node with
  | some item => pure (item :: order.eraseP fun other => other.1 = node)
  | none => leave .dangling

/-- The bytes of the entry at an address are replaced. -/
def replaceBytes (order : List (Nat × Entry)) (node : Nat) (bytes : List UInt8) :
    List (Nat × Entry) :=
  order.map fun item => if item.1 = node then (item.1, { item.2 with bytes }) else item

/-- The size of an entry, as the cache counts it. -/
def byteCount (bytes : List UInt8) : UInt64 := UInt64.ofNat bytes.length

/-! ### Eviction -/

/-- The loop of `EvictOverBudget`; each turn drops an entry. -/
def evictLoop : Nat → Cache → Cache
  | 0, cache => cache
  | turns + 1, cache =>
      match cache.order.getLast? with
      | some last =>
          if cache.cachedBytes > cache.capacityBytes then
            evictLoop turns
              { cache with
                cachedBytes := cache.cachedBytes - byteCount last.2.bytes
                byId := cache.byId.filter fun pair => pair.1 ≠ last.2.chunkId
                order := cache.order.dropLast
                evictions := counterSaturatingAdd cache.evictions 1 }
          else cache
      | none => cache

/-- `EvictOverBudget`. -/
def evictOverBudget (cache : Cache) : Cache := evictLoop cache.order.length cache

/-! ### Calls -/

/-- `Touch`: the entry of an id, which comes to the front. -/
def touch (cache : Cache) (chunkId : UInt64) : Caching (Cache × Option Entry) :=
  match findNode cache.byId chunkId with
  | none => pure ({ cache with misses := counterSaturatingAdd cache.misses 1 }, none)
  | some node => do
      let order ← spliceFront cache.order node
      let entry ← entryAt order node
      let touched : Cache :=
        { cache with
          order := order
          byId := assignNode cache.byId chunkId node
          hits := counterSaturatingAdd cache.hits 1 }
      pure (touched, some entry)

section Hashed

variable (H : ByteHasher)

/-- `Get`: the bytes, if there is a hit. -/
def get (cache : Cache) (chunkId : UInt64) : Caching (Cache × Option (List UInt8)) := do
  let (cache, entry) ← touch cache chunkId
  pure (cache, entry.map Entry.bytes)

/-- `Read`: its result, the output and the hash of the record after it. -/
def read (cache : Cache) (chunkId : UInt64) (output : List UInt8) (recordHash : Option H.State) :
    Caching (Cache × Option Bool × List UInt8 × Option H.State) := do
  let (cache, entry) ← touch cache chunkId
  match entry with
  | none => pure (cache, none, output, recordHash)
  | some entry =>
      if entry.bytes.length ≠ output.length then pure (cache, some false, output, recordHash)
      else pure (cache, some true, entry.bytes, absorb H recordHash entry.bytes)

/-- `Matches`: its result, and the hash of the record after it. -/
def matchesBytes (cache : Cache) (chunkId : UInt64) (expected : List UInt8)
    (recordHash : Option H.State) : Caching (Cache × Option Bool × Option H.State) := do
  let (cache, entry) ← touch cache chunkId
  match entry with
  | none => pure (cache, none, recordHash)
  | some entry =>
      if entry.bytes.length ≠ expected.length then pure (cache, some false, recordHash)
      else if entry.bytes ≠ expected then pure (cache, some false, recordHash)
      else pure (cache, some true, absorb H recordHash entry.bytes)

/-- `Put`. -/
def put (cache : Cache) (chunkId : UInt64) (bytes : List UInt8) : Caching Cache :=
  match findNode cache.byId chunkId with
  | some node => do
      let entry ← entryAt cache.order node
      let order ← spliceFront (replaceBytes cache.order node bytes) node
      pure (evictOverBudget
        { cache with
          cachedBytes := cache.cachedBytes - byteCount entry.bytes + byteCount bytes
          order := order
          byId := assignNode cache.byId chunkId node })
  | none =>
      if byteCount bytes > cache.capacityBytes then pure (evictOverBudget cache)
      else
        pure (evictOverBudget
          { cache with
            order := (cache.fresh, ⟨chunkId, bytes⟩) :: cache.order
            byId := insertNode cache.byId chunkId cache.fresh
            fresh := cache.fresh + 1
            cachedBytes := cache.cachedBytes + byteCount bytes })

/-- `Clear`. -/
def clear (cache : Cache) : Cache := { capacityBytes := cache.capacityBytes, fresh := cache.fresh }

/-- A call of the cache. -/
inductive Call where
  | put (chunkId : UInt64) (bytes : List UInt8)
  | get (chunkId : UInt64)
  | read (chunkId : UInt64) (output : List UInt8) (recordHash : Option H.State)
  | matchesBytes (chunkId : UInt64) (expected : List UInt8) (recordHash : Option H.State)
  | clear

/-- What a call returns. -/
inductive Reply where
  | done
  | got (bytes : Option (List UInt8))
  | read (result : Option Bool) (output : List UInt8) (recordHash : Option H.State)
  | matched (result : Option Bool) (recordHash : Option H.State)

variable {H}

/-- A call and its reply. -/
def Call.run (cache : Cache) : Call H → Caching (Cache × Reply H)
  | .put chunkId bytes => do
      let cache ← SpillCache.put cache chunkId bytes
      pure (cache, .done)
  | .get chunkId => do
      let (cache, bytes) ← SpillCache.get cache chunkId
      pure (cache, .got bytes)
  | .read chunkId output recordHash => do
      let (cache, result, output, recordHash) ← SpillCache.read H cache chunkId output recordHash
      pure (cache, .read result output recordHash)
  | .matchesBytes chunkId expected recordHash => do
      let (cache, result, recordHash) ← SpillCache.matchesBytes H cache chunkId expected recordHash
      pure (cache, .matched result recordHash)
  | .clear => pure (SpillCache.clear cache, .done)

end Hashed

end RunD.SpillCache
