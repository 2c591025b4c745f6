/-
The timer store of the scheduler, and its logical time.

The timers are a heap, the one with the least logical deadline in front; a sorted
index leads from the id of a wait to its place in the heap, and is built anew
after every change.  A timer is due when its wall-clock deadline has come, but
only the timer in front is looked at.  Popping it advances the logical time, from
which the logical deadlines of later timers are formed.

Both vectors are reserved to the capacity for timers when the scheduler starts,
and a timer is pushed only below that capacity, so that no step here allocates.
-/
import Mathlib.Data.Int.Order.Basic
import Mathlib.Algebra.Order.Ring.Int
import RunD.BinaryHeap

namespace RunD.Timer

/-! ### Data -/

/-- `TimerWait`; the deadline on the wall clock and the logical one are in nanoseconds. -/
structure TimerWait where
  taskId : UInt64
  waitId : UInt64
  deadline : Int
  deadlineNs : Int
  sequence : UInt64
  deriving DecidableEq, Repr

/-- `TimerWaitIdIndexEntry`. -/
structure IndexEntry where
  waitId : UInt64
  slot : Nat
  deriving DecidableEq, Repr

/-- The timers and their index. -/
structure Store where
  timers : List TimerWait := []
  index : List IndexEntry := []
  deriving DecidableEq, Repr

/-! ### The store -/

/-- `TimerWaitAfter`. -/
def timerWaitAfter (lhs rhs : TimerWait) : Bool :=
  if lhs.deadlineNs ≠ rhs.deadlineNs then lhs.deadlineNs > rhs.deadlineNs
  else if lhs.sequence ≠ rhs.sequence then lhs.sequence > rhs.sequence
  else lhs.taskId > rhs.taskId

/-- `FindTimerWaitId`: `std::lower_bound` by the id. -/
def findTimerWaitId (index : List IndexEntry) (waitId : UInt64) : Option IndexEntry :=
  index.find? fun entry => ¬ entry.waitId < waitId

/-- The entries of the index as the loop of `RebuildTimerIndex` pushes them. -/
def slotEntries (timers : List TimerWait) : List IndexEntry :=
  timers.zipIdx.map fun item => ⟨item.1.waitId, item.2⟩

/-- `RebuildTimerIndex`. -/
def rebuildTimerIndex (timers : List TimerWait) : List IndexEntry :=
  (slotEntries timers).mergeSort fun lhs rhs => lhs.waitId ≤ rhs.waitId

/-- The store of these timers, after the index is built. -/
def rebuilt (timers : List TimerWait) : Store := ⟨timers, rebuildTimerIndex timers⟩

/-- `TimerStorePush`. -/
def timerStorePush (store : Store) (wait : TimerWait) : Store :=
  rebuilt (pushHeap timerWaitAfter (store.timers ++ [wait]))

/-- The slot of a wait and the wait in it, which the index has to agree with. -/
def foundSlot (store : Store) (waitId : UInt64) : Option (Nat × TimerWait) :=
  match findTimerWaitId store.index waitId with
  | none => none
  | some found =>
      if found.waitId ≠ waitId then none
      else
        match store.timers[found.slot]? with
        | none => none
        | some wait => if wait.waitId ≠ waitId then none else some (found.slot, wait)

/-- `TimerStoreFind`. -/
def timerStoreFind (store : Store) (waitId : UInt64) : Option TimerWait :=
  (foundSlot store waitId).map Prod.snd

/-- `TimerStoreCancel`: the wait that was removed, if it was there, and the store after it. -/
def timerStoreCancel (store : Store) (waitId : UInt64) : Option TimerWait × Store :=
  match foundSlot store waitId with
  | none => (none, store)
  | some (slot, wait) =>
      match store.timers.getLast? with
      | none => (none, store)
      | some back =>
          (some wait,
            rebuilt (makeHeap timerWaitAfter ((store.timers.set slot back).dropLast)))

/-- `TimerStorePopDue`: the wait that was due, if there was one, and the store after it. -/
def timerStorePopDue (store : Store) (now : Int) : Option TimerWait × Store :=
  match store.timers with
  | [] => (none, store)
  | front :: rest =>
      if front.deadline > now then (none, store)
      else
        let popped := popHeap timerWaitAfter (front :: rest)
        (popped.getLast?, rebuilt popped.dropLast)

/-! ### Logical time -/

/-- The greatest count of nanoseconds. -/
def kNanosecondsMax : Int := 2 ^ 63 - 1

/-- `MakeTimerDeadline`: the deadline on the wall clock and the logical one. -/
def makeTimerDeadline (now logicalTimeNs duration : Int) : Int × Int :=
  if duration > 0 ∧ logicalTimeNs > kNanosecondsMax - duration then
    (kNanosecondsMax, kNanosecondsMax)
  else (now + duration, logicalTimeNs + duration)

/-- The store and the logical time. -/
structure Clocked where
  store : Store := {}
  logicalTimeNs : Int := 0
  deriving DecidableEq, Repr

/-- The wait that is pushed for a task that sleeps. -/
def Clocked.newWait (clocked : Clocked) (taskId waitId sequence : UInt64) (now duration : Int) :
    TimerWait :=
  let deadline := makeTimerDeadline now clocked.logicalTimeNs duration
  { taskId := taskId
    waitId := waitId
    deadline := deadline.1
    deadlineNs := deadline.2
    sequence := sequence }

/-- A wait is pushed. -/
def Clocked.push (clocked : Clocked) (wait : TimerWait) : Clocked :=
  { clocked with store := timerStorePush clocked.store wait }

/-- A wait is cancelled. -/
def Clocked.cancel (clocked : Clocked) (waitId : UInt64) : Option TimerWait × Clocked :=
  let (removed, store) := timerStoreCancel clocked.store waitId
  (removed, { clocked with store := store })

/-- One turn of the loop of `WakeDueTimers`. -/
def Clocked.popDue (clocked : Clocked) (now : Int) : Option TimerWait × Clocked :=
  match timerStorePopDue clocked.store now with
  | (none, store) => (none, { clocked with store := store })
  | (some wait, store) =>
      (some wait,
        { clocked with
          store := store
          logicalTimeNs := max clocked.logicalTimeNs wait.deadlineNs })

end RunD.Timer
