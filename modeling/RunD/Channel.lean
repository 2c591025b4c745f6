/-
The channel of the tasks: what its operations do while they hold its lock.

A value that is sent goes to the longest waiting receiver, into the buffer, or
waits with its sender.  A receiver takes from its rendezvous slot, from the
buffer, or from the sender that has waited longest.  Everything that belongs to a
waiting task lies in tables under the task's slot, `taskSlot`, which the scheduler
gives it; tables are made when they are first needed.

An operation that reads a value which is not there has no result.
-/
import RunD.Ring
import RunD.SlotTable

namespace RunD.Channel

variable {α : Type}

/-- The reasons why an operation of a channel fails. -/
inductive ReasonCode where
  | channelClosed
  | channelCapacityExceeded
  | channelWaitCapacityExceeded
  | taskContextMissing
  deriving DecidableEq, Repr

/-- `Control`, without what the scheduler's record of the channel needs. -/
structure Control (α : Type) where
  capacity : Nat
  taskCapacity : Nat
  buffer : List (Option α)
  bufferHead : Nat := 0
  bufferSize : Nat := 0
  sendWaiters : LinkedQueue := {}
  recvWaiters : LinkedQueue := {}
  sendValueByTask : List (Option α) := []
  rendezvousByReceiver : List (Option α) := []
  completedSendByTask : List (Option Nat) := []
  closed : Bool := false
  deriving DecidableEq, Repr

/-- `PendingSend`. -/
structure PendingSend (α : Type) where
  taskId : Nat
  value : Option α
  deriving DecidableEq, Repr

namespace Control

/-- `make`. -/
def make (capacity taskCapacity : Nat) : Control α :=
  { capacity, taskCapacity, buffer := List.replicate capacity none }

variable (taskSlot : Nat → Nat) (control : Control α)

/-! ### The buffer -/

def bufferEmpty : Bool := control.bufferSize == 0

def bufferFull : Bool := control.bufferSize == control.capacity

/-- `PushBuffered`. -/
def pushBuffered (value : α) : Option (Control α) :=
  let index := (control.bufferHead + control.bufferSize) % control.capacity
  if control.capacity = 0 ∨ index ≥ control.buffer.length then none
  else
    some { control with
      buffer := control.buffer.set index (some value)
      bufferSize := control.bufferSize + 1 }

/-- `PopBuffered`. -/
def popBuffered : Option (α × Control α) := do
  let value ← (control.buffer[control.bufferHead]?).join
  some
    (value,
      { control with
        buffer := control.buffer.set control.bufferHead none
        bufferSize := control.bufferSize - 1
        bufferHead := (control.bufferHead + 1) % control.capacity })

/-! ### The waiters -/

def hasSendWaiters : Bool := control.sendWaiters.count != 0

def hasRecvWaiters : Bool := control.recvWaiters.count != 0

/-- `EnsureSendWaitStorage`. -/
def ensureSendWaitStorage : Control α :=
  { control with
    sendWaiters := control.sendWaiters.ensure control.taskCapacity
    sendValueByTask := resized control.sendValueByTask control.taskCapacity none
    completedSendByTask := resized control.completedSendByTask control.taskCapacity none }

/-- `EnsureRecvWaitStorage`. -/
def ensureRecvWaitStorage : Control α :=
  { control with recvWaiters := control.recvWaiters.ensure control.taskCapacity }

/-- `EnsureRendezvousStorage`. -/
def ensureRendezvousStorage : Control α :=
  { control with
    rendezvousByReceiver := resized control.rendezvousByReceiver control.taskCapacity none }

/-- `PushSendWaiter`. -/
def pushSendWaiter (taskId : Nat) (value : α) : Bool × Control α :=
  let control := control.ensureSendWaitStorage
  match control.sendWaiters.push taskSlot taskId with
  | none => (false, control)
  | some waiters =>
      (true,
        { control with
          sendWaiters := waiters
          sendValueByTask := control.sendValueByTask.set (taskSlot taskId) (some value) })

/-- `PushRecvWaiter`. -/
def pushRecvWaiter (taskId : Nat) : Bool × Control α :=
  let control := control.ensureRecvWaitStorage
  match control.recvWaiters.push taskSlot taskId with
  | none => (false, control)
  | some waiters => (true, { control with recvWaiters := waiters })

/-- `RemoveSendWaiter`. -/
def removeSendWaiter (taskId : Nat) : Control α :=
  if control.sendWaiters.active taskSlot taskId then
    { control with
      sendWaiters := control.sendWaiters.remove taskSlot taskId
      sendValueByTask := control.sendValueByTask.set (taskSlot taskId) none }
  else control

/-- `RemoveRecvWaiter`. -/
def removeRecvWaiter (taskId : Nat) : Control α :=
  { control with recvWaiters := control.recvWaiters.remove taskSlot taskId }

/-- `PopSendWaiter`. -/
def popSendWaiter : Option (PendingSend α) × Control α :=
  match control.sendWaiters.pop taskSlot with
  | (none, waiters) => (none, { control with sendWaiters := waiters })
  | (some front, waiters) =>
      (some { taskId := front, value := entryAt taskSlot control.sendValueByTask front },
        { control with
          sendWaiters := waiters
          sendValueByTask := control.sendValueByTask.set (taskSlot front) none })

/-- `PopRecvWaiter`. -/
def popRecvWaiter : Option Nat × Control α :=
  match control.recvWaiters.pop taskSlot with
  | (front, waiters) => (front, { control with recvWaiters := waiters })

/-! ### What is left for a task -/

/-- `PushRendezvous`. -/
def pushRendezvous (receiver : Nat) (value : α) : Control α :=
  { control with
    rendezvousByReceiver := control.rendezvousByReceiver.set (taskSlot receiver) (some value) }

/-- `TakeRendezvous`. -/
def takeRendezvous (receiver : Nat) : Option α × Control α :=
  match entryAt taskSlot control.rendezvousByReceiver receiver with
  | none => (none, control)
  | some value =>
      (some value,
        { control with
          rendezvousByReceiver := control.rendezvousByReceiver.set (taskSlot receiver) none })

/-- `CompleteParkedSend`. -/
def completeParkedSend (taskId valueCount : Nat) : Control α :=
  { control with
    completedSendByTask :=
      control.completedSendByTask.set (taskSlot taskId) (some valueCount) }

/-- `TakeCompletedSend`. -/
def takeCompletedSend (taskId : Nat) : Option Nat × Control α :=
  match entryAt taskSlot control.completedSendByTask taskId with
  | none => (none, control)
  | some valueCount =>
      (some valueCount,
        { control with
          completedSendByTask := control.completedSendByTask.set (taskSlot taskId) none })

end Control

/-! ### Sending -/

/-- What the locked section of `send_impl` ends with. -/
inductive SendSection where
  | failed (code : ReasonCode)
  | passed (wakeReceiver : Option Nat) (valueCount : Nat)
  | queued
  deriving DecidableEq, Repr

/-- The locked section of `send_impl`. -/
def sendSection (taskSlot : Nat → Nat) (queued : Bool) (taskId : Nat) (value : α)
    (control : Control α) : Option (SendSection × Control α) :=
  match if queued then control.takeCompletedSend taskSlot taskId else (none, control) with
  | (some valueCount, control) => some (SendSection.passed none valueCount, control)
  | (none, control) =>
      if control.closed then some (SendSection.failed ReasonCode.channelClosed, control)
      else if !queued && control.hasRecvWaiters &&
          (control.capacity == 0 || !control.bufferFull) then
        let control := control.ensureRendezvousStorage
        match control.popRecvWaiter taskSlot with
        | (none, control) => some (SendSection.passed none control.bufferSize, control)
        | (some receiver, control) =>
            let control := control.pushRendezvous taskSlot receiver value
            some (SendSection.passed (some receiver) control.bufferSize, control)
      else if !queued && !control.bufferFull then do
        let control ← control.pushBuffered value
        some (SendSection.passed none control.bufferSize, control)
      else if !queued then
        match control.pushSendWaiter taskSlot taskId value with
        | (false, control) =>
            some (SendSection.failed ReasonCode.channelCapacityExceeded, control)
        | (true, control) => some (SendSection.queued, control)
      else if !control.sendWaiters.active taskSlot taskId then
        some (SendSection.passed none control.bufferSize, control)
      else some (SendSection.queued, control)

/-- The locked section of `CoroutineResumeSend`: the value count of a send that was completed, or
the code it fails with. -/
def resumeSend (taskSlot : Nat → Nat) (taskId : Nat) (control : Control α) :
    Except ReasonCode Nat × Control α :=
  match control.takeCompletedSend taskSlot taskId with
  | (some valueCount, control) => (Except.ok valueCount, control)
  | (none, control) =>
      (Except.error
        (if control.closed then ReasonCode.channelClosed else ReasonCode.taskContextMissing),
        control)

/-! ### Receiving -/

/-- What the locked section of `recv_impl` ends with. -/
inductive RecvSection (α : Type) where
  | failed (code : ReasonCode)
  | received (value : α) (wakeSender wakeReceiver : Option Nat) (valueCount : Nat)
  | queued
  deriving DecidableEq, Repr

namespace Control

variable (taskSlot : Nat → Nat) (control : Control α)

/-- A sender that waits puts its value into the buffer. -/
def refill : Option (Option Nat × Control α) :=
  match control.popSendWaiter taskSlot with
  | (none, control) => some (none, control)
  | (some pending, control) => do
      let value ← pending.value
      let control ← control.pushBuffered value
      some (some pending.taskId,
        control.completeParkedSend taskSlot pending.taskId control.bufferSize)

/-- A receiver that waits is given the first value of the buffer. -/
def passBuffered : Option (Option Nat × Control α) :=
  if !control.bufferEmpty && control.hasRecvWaiters then
    match control.popRecvWaiter taskSlot with
    | (none, control) => some (none, control)
    | (some receiver, control) => do
        let (value, control) ← control.popBuffered
        some (some receiver, control.pushRendezvous taskSlot receiver value)
  else some (none, control)

end Control

/-- The locked section of `recv_impl`. -/
def recvSection (taskSlot : Nat → Nat) (queued : Bool) (taskId : Nat) (control : Control α) :
    Option (RecvSection α × Control α) :=
  let control :=
    if control.hasRecvWaiters && !control.bufferEmpty then control.ensureRendezvousStorage
    else control
  match control.takeRendezvous taskSlot taskId with
  | (some value, control) => do
      let (wakeReceiver, control) ← control.passBuffered taskSlot
      some (RecvSection.received value none wakeReceiver control.bufferSize, control)
  | (none, control) =>
      if !control.bufferEmpty then do
        let (value, control) ← control.popBuffered
        let (wakeSender, control) ← control.refill taskSlot
        let (wakeReceiver, control) ← control.passBuffered taskSlot
        some (RecvSection.received value wakeSender wakeReceiver control.bufferSize, control)
      else if control.hasSendWaiters then do
        let (pending, control) := control.popSendWaiter taskSlot
        let pending ← pending
        let value ← pending.value
        let control := control.completeParkedSend taskSlot pending.taskId control.bufferSize
        some (RecvSection.received value (some pending.taskId) none control.bufferSize, control)
      else if control.closed then some (RecvSection.failed ReasonCode.channelClosed, control)
      else if !queued then
        match control.pushRecvWaiter taskSlot taskId with
        | (false, control) =>
            some (RecvSection.failed ReasonCode.channelCapacityExceeded, control)
        | (true, control) => some (RecvSection.queued, control)
      else some (RecvSection.queued, control)

/-- The locked section of `CoroutineResumeRecv`. -/
def resumeRecv (taskSlot : Nat → Nat) (taskId : Nat) (control : Control α) :
    Except ReasonCode (α × Nat) × Control α :=
  match control.takeRendezvous taskSlot taskId with
  | (some value, control) => (Except.ok (value, control.bufferSize), control)
  | (none, control) =>
      (Except.error
        (if control.closed then ReasonCode.channelClosed else ReasonCode.taskContextMissing),
        control)

/-! ### Closing -/

/-- The senders that `close` takes out of their queue, in at most `fuel` turns. -/
def popSenders (taskSlot : Nat → Nat) : Nat → Control α → List Nat × Control α
  | 0, control => ([], control)
  | fuel + 1, control =>
      match control.popSendWaiter taskSlot with
      | (none, control) => ([], control)
      | (some pending, control) =>
          let (others, control) := popSenders taskSlot fuel control
          (pending.taskId :: others, control)

/-- The receivers that `close` takes out of their queue, in at most `fuel` turns. -/
def popReceivers (taskSlot : Nat → Nat) : Nat → Control α → List Nat × Control α
  | 0, control => ([], control)
  | fuel + 1, control =>
      match control.popRecvWaiter taskSlot with
      | (none, control) => ([], control)
      | (some waiter, control) =>
          let (others, control) := popReceivers taskSlot fuel control
          (waiter :: others, control)

/-- The locked section of `close`, with the waiters that it wakes. -/
def closeSection (taskSlot : Nat → Nat) (control : Control α) : List Nat × Control α :=
  let control := { control with closed := true }
  let (waiters, control) :=
    if control.hasSendWaiters || control.hasRecvWaiters then
      let (senders, control) :=
        popSenders taskSlot (control.sendWaiters.next.length + 1) control
      let (receivers, control) :=
        popReceivers taskSlot (control.recvWaiters.next.length + 1) control
      (senders ++ receivers, control)
    else ([], control)
  (waiters,
    { control with
      sendWaiters := { control.sendWaiters with head := 0, tail := 0 }
      recvWaiters := { control.recvWaiters with head := 0, tail := 0 } })

end RunD.Channel
