/-
The index of the tasks of a scheduler: from the id of a task to the slot of its
record.

The index is a table with open addressing.  A word of the table is zero (empty),
the largest word (deleted), or one more than the slot of a record; the id is not
in the table but is read from the record, so a search compares with whatever id
the record holds at that moment.  A retirement forgets the id first and clears
the record afterwards; if too many words are deleted the table is built anew in
between, from all records but the retiring one.

`Operation` and `run` are admissions and retirements one after the other.
-/
import RunD.Checked
import Mathlib.Data.Finset.Card

namespace RunD

/-- `kIndexEmpty`. -/
def kIndexEmpty : UInt32 := 0

/-- `kIndexDeleted`. -/
def kIndexDeleted : UInt32 := 4294967295

/-- What the index reads and writes of `SchedulerReadyState`; of a record only its id.  The counters
count words of the table, so neither is taken down at zero. -/
structure TaskIndex where
  records : List UInt64 := []
  slots : List UInt32 := []
  size : Nat := 0
  deleted : Nat := 0
  deriving DecidableEq, Repr

/-- An admission that the index refuses, and the abort of a rebuild. -/
inductive IndexFault where
  | refused
  | aborted
  deriving DecidableEq, Repr

abbrev Indexing (β : Type) := Checked IndexFault β

/-- `IndexOccupied`. -/
def indexOccupied (entry : UInt32) : Bool := entry != kIndexEmpty && entry != kIndexDeleted

namespace TaskIndex

/-- `IndexMatches`. -/
def indexMatches (t : TaskIndex) (entry : UInt32) (id : UInt64) : Bool :=
  indexOccupied entry && t.records[entry.toNat - 1]? == some id

/-- The probes of `IndexTask`; `firstDeleted` is the first deleted slot on the way. -/
def indexLoop (t : TaskIndex) (id : UInt64) (encoded : UInt32) :
    Nat → Nat → Option Nat → Indexing (Bool × TaskIndex)
  | 0, _, none => pure (false, t)
  | 0, _, some target => do
      let slots ← assign t.slots target encoded
      pure (true, { t with slots := slots, size := t.size + 1, deleted := t.deleted - 1 })
  | probes + 1, slot, firstDeleted => do
      let entry ← fetch t.slots slot
      if t.indexMatches entry id then do
        let slots ← assign t.slots slot encoded
        pure (true, { t with slots := slots })
      else
        let firstDeleted :=
          if entry = kIndexDeleted ∧ firstDeleted = none then some slot else firstDeleted
        if entry = kIndexEmpty then do
          let slots ← assign t.slots (firstDeleted.getD slot) encoded
          pure (true,
            { t with
              slots := slots
              size := t.size + 1
              deleted := if firstDeleted.isSome then t.deleted - 1 else t.deleted })
        else indexLoop t id encoded probes ((slot + 1) % t.slots.length) firstDeleted

/-- `IndexTask`. -/
def indexTask (t : TaskIndex) (id : UInt64) (index : Nat) : Indexing (Bool × TaskIndex) :=
  if id = 0 ∨ t.slots = [] ∨ index ≥ (kIndexDeleted - 1).toNat then pure (false, t)
  else
    t.indexLoop id (UInt32.ofNat (index + 1)) t.slots.length (id.toNat % t.slots.length) none

/-- One record of `RebuildTaskIndex`. -/
def reindex (retired : UInt64) (index : Nat) (t : TaskIndex) : Indexing TaskIndex := do
  let id ← fetch t.records index
  if id ≠ 0 ∧ id ≠ retired then do
    let (indexed, t) ← t.indexTask id index
    if indexed then pure t else leave .aborted
  else pure t

/-- The table with empty slots only. -/
def emptied (t : TaskIndex) : TaskIndex :=
  { t with slots := List.replicate t.slots.length kIndexEmpty, size := 0, deleted := 0 }

/-- `RebuildTaskIndex`. -/
def rebuild (t : TaskIndex) (retired : UInt64) : Indexing TaskIndex :=
  forRange t.records.length (reindex retired) t.emptied

/-- What `ForgetTask` does after a slot is deleted. -/
def tidy (t : TaskIndex) (id : UInt64) : Indexing TaskIndex :=
  if t.size = 0 then pure t.emptied
  else if t.deleted > t.size ∧ t.deleted ≥ (t.slots.length + 3) / 4 then t.rebuild id
  else pure t

/-- The probes of `ForgetTask`. -/
def forgetLoop (t : TaskIndex) (id : UInt64) : Nat → Nat → Indexing TaskIndex
  | 0, _ => pure t
  | probes + 1, slot => do
      let entry ← fetch t.slots slot
      if entry = kIndexEmpty then pure t
      else if t.indexMatches entry id then do
        let slots ← assign t.slots slot kIndexDeleted
        tidy { t with slots := slots, size := t.size - 1, deleted := t.deleted + 1 } id
      else forgetLoop t id probes ((slot + 1) % t.slots.length)

/-- `ForgetTask`. -/
def forgetTask (t : TaskIndex) (id : UInt64) : Indexing TaskIndex :=
  if id = 0 ∨ t.slots = [] then pure t
  else t.forgetLoop id t.slots.length (id.toNat % t.slots.length)

/-- The probes of `IndexFor`. -/
def findLoop (t : TaskIndex) (id : UInt64) : Nat → Nat → Indexing (Option Nat)
  | 0, _ => pure none
  | probes + 1, slot => do
      let entry ← fetch t.slots slot
      if entry = kIndexEmpty then pure none
      else if t.indexMatches entry id then pure (some (entry.toNat - 1))
      else findLoop t id probes ((slot + 1) % t.slots.length)

/-- `IndexFor`; none is `kInvalidTaskIndex`. -/
def indexFor (t : TaskIndex) (id : UInt64) : Indexing (Option Nat) :=
  if id = 0 ∨ t.slots = [] then pure none
  else t.findLoop id t.slots.length (id.toNat % t.slots.length)

/-! ### Admissions and retirements -/

/-- The records with an id in a slot: one that was used before, or a new one at the end. -/
def place (records : List UInt64) (index : Nat) (id : UInt64) : List UInt64 :=
  if index < records.length then records.set index id else records ++ [id]

/-- An admission: the record of a slot gets the id, and the id is indexed. -/
def enqueuePreparedSpawnTask (t : TaskIndex) (id : UInt64) (index : Nat) : Indexing TaskIndex := do
  let (indexed, t) ← indexTask { t with records := place t.records index id } id index
  if indexed then pure t else leave .refused

/-- A retirement: the id is forgotten while the record still has it. -/
def retireTaskRecord (t : TaskIndex) (index : Nat) : Indexing TaskIndex := do
  let oldId ← fetch t.records index
  if oldId = 0 then pure t
  else do
    let t ← t.forgetTask oldId
    let records ← assign t.records index 0
    pure { t with records := records }

/-- The table as the scheduler sizes it. -/
def configure (capacity : Nat) : TaskIndex :=
  { slots := List.replicate (capacity * 2 + 1) kIndexEmpty }

inductive Operation where
  | spawn (id : UInt64) (index : Nat)
  | retire (index : Nat)
  deriving DecidableEq, Repr

def step (t : TaskIndex) : Operation → Indexing TaskIndex
  | .spawn id index => t.enqueuePreparedSpawnTask id index
  | .retire index => t.retireTaskRecord index

def run (t : TaskIndex) : List Operation → Indexing TaskIndex
  | [] => pure t
  | operation :: operations => do
      let t ← t.step operation
      t.run operations

/-- What an operation does to the ids of the records. -/
def recordsStep (records : List UInt64) : Operation → List UInt64
  | .spawn id index => place records index id
  | .retire index => records.set index 0

/-- The slots of the live records. -/
def liveSlots (records : List UInt64) : Finset ℕ :=
  (Finset.range records.length).filter fun index => records[index]?.getD 0 ≠ 0

/-- An id that is admitted is new and not zero, its slot is not in use and there is room for one
more task.  A word of the table holds the number of the slot: the capacity of a scheduler is at most
`SlotMask`, and a record is added only when none is free. -/
def Admissible (capacity : Nat) (records : List UInt64) : Operation → Prop
  | .spawn id index =>
      id ≠ 0 ∧ id ∉ records ∧ index ≤ records.length ∧ records[index]?.getD 0 = 0 ∧
        index < (kIndexDeleted - 1).toNat ∧ (liveSlots records).card < capacity
  | .retire index => index < records.length

instance (capacity : Nat) (records : List UInt64) :
    (operation : Operation) → Decidable (Admissible capacity records operation)
  | .spawn .. => inferInstanceAs (Decidable (_ ∧ _))
  | .retire _ => inferInstanceAs (Decidable (_ < _))

def AdmissibleRun (capacity : Nat) (records : List UInt64) : List Operation → Prop
  | [] => True
  | operation :: operations =>
      Admissible capacity records operation ∧
        AdmissibleRun capacity (recordsStep records operation) operations

instance (capacity : Nat) :
    (records : List UInt64) → (operations : List Operation) →
      Decidable (AdmissibleRun capacity records operations)
  | _, [] => isTrue trivial
  | records, operation :: operations =>
      have : Decidable (AdmissibleRun capacity (recordsStep records operation) operations) :=
        instDecidableAdmissibleRun capacity (recordsStep records operation) operations
      inferInstanceAs (Decidable (_ ∧ _))

end TaskIndex

end RunD
