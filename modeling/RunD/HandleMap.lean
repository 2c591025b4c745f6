/-
The map from the handles of the operating system to the canonical ones of a
scope: a table with open addressing.

A slot carries a stamp.  It says in which scope the slot was last used, and
whether its handle is still open; a slot of an earlier scope counts as empty,
so a new scope begins without touching the table.  A closed handle leaves its
slot retired: a search goes on behind it, and the next admission may take it.
-/
import RunD.Checked
import RunD.ProbeTable

namespace RunD

/-- `SchedulerHandleMap::Entry`. -/
structure HandleEntry where
  physical : UInt64 := 0
  canonical : UInt64 := 0
  stamp : UInt32 := 0
  deriving DecidableEq, Repr

/-- `SchedulerHandleMap`. -/
structure HandleMap where
  entries : List HandleEntry := []
  mask : Nat := 0
  limit : UInt32 := 0
  epoch : UInt32 := 0
  live : UInt32 := 0
  next : UInt64 := 1
  deriving DecidableEq, Repr

namespace HandleMap

variable {ε : Type}

/-- `configure`, none when it returns false; `allocates` says whether the table found its
memory. -/
def configure (capacity : UInt32) (allocates : Bool) : Option HandleMap :=
  if capacity = 0 then some {}
  else if capacity.toNat > kSizeMax / 2 then none
  else
    match growLoop (capacity.toNat * 2) 65 1 with
    | none => none
    | some size =>
        if allocates then
          some { entries := List.replicate size {}, mask := size - 1, limit := capacity }
        else none

def maxEpoch : UInt32 := (~~~0 : UInt32) >>> 1

/-- `begin`: a new scope. -/
def beginScope (map : HandleMap) : HandleMap :=
  if map.epoch = maxEpoch then
    { map with
      entries := List.replicate map.entries.length {}
      epoch := 1
      live := 0
      next := 1 }
  else { map with epoch := map.epoch + 1, live := 0, next := 1 }

def hash (value : UInt64) : UInt64 :=
  let value := (value ^^^ (value >>> 30)) * 0xbf58476d1ce4e5b9
  let value := (value ^^^ (value >>> 27)) * 0x94d049bb133111eb
  value ^^^ (value >>> 31)

/-- The slot a search begins with. -/
def home (map : HandleMap) (physical : UInt64) : Nat := (hash physical).toNat &&& map.mask

def liveStamp (map : HandleMap) : UInt32 := map.epoch * 2 + 1

def retiredStamp (map : HandleMap) : UInt32 := map.epoch * 2

/-- `admit`: the canonical handle that was given out, none when it returns false. -/
def admitHandle (map : HandleMap) (slot : Nat) (physical : UInt64) :
    Checked ε (Option UInt64 × HandleMap) :=
  if map.live ≥ map.limit ∨ map.next = 0 then pure (none, map)
  else do
    let entries ← assign map.entries slot
      { physical := physical, canonical := map.next, stamp := map.liveStamp }
    pure (some map.next,
      { map with entries := entries, next := map.next + 1, live := map.live + 1 })

/-- The loop of `find_or_admit`; `retired` is the first retired slot on the way, or the size of
the table. -/
def findLoop (map : HandleMap) (physical : UInt64) :
    Nat → Nat → Nat → Checked ε (Option UInt64 × HandleMap)
  | 0, _, retired =>
      if retired ≠ map.entries.length then map.admitHandle retired physical else pure (none, map)
  | turns + 1, slot, retired => do
      let entry ← fetch map.entries slot
      if entry.stamp = map.liveStamp ∧ entry.physical = physical then
        pure (some entry.canonical, map)
      else if entry.stamp = map.retiredStamp then
        findLoop map physical turns ((slot + 1) &&& map.mask)
          (if retired = map.entries.length then slot else retired)
      else if entry.stamp >>> 1 ≠ map.epoch then
        map.admitHandle (if retired = map.entries.length then slot else retired) physical
      else findLoop map physical turns ((slot + 1) &&& map.mask) retired

/-- `find_or_admit`: the canonical handle, none when it returns false. -/
def findOrAdmit (map : HandleMap) (physical : UInt64) : Checked ε (Option UInt64 × HandleMap) :=
  if physical = 0 then pure (some 0, map)
  else if map.epoch = 0 ∨ map.entries = [] then pure (none, map)
  else map.findLoop physical map.entries.length (map.home physical) map.entries.length

/-- The loop of `retire`. -/
def retireLoop (map : HandleMap) (physical : UInt64) :
    Nat → Nat → Checked ε (Bool × HandleMap)
  | 0, _ => pure (false, map)
  | turns + 1, slot => do
      let entry ← fetch map.entries slot
      if entry.stamp >>> 1 ≠ map.epoch then pure (false, map)
      else if entry.stamp = map.liveStamp ∧ entry.physical = physical then do
        let entries ← assign map.entries slot { entry with stamp := map.retiredStamp }
        pure (true, { map with entries := entries, live := map.live - 1 })
      else retireLoop map physical turns ((slot + 1) &&& map.mask)

/-- `retire`. -/
def retire (map : HandleMap) (physical : UInt64) : Checked ε (Bool × HandleMap) :=
  if physical = 0 then pure (true, map)
  else if map.epoch = 0 ∨ map.entries = [] then pure (false, map)
  else map.retireLoop physical map.entries.length (map.home physical)

end HandleMap

end RunD
