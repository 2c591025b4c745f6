/-
The tasks that use a channel.

One step is a locked section of an operation, a park, a refused park or the
locked section of a task that goes on.  A task that queued itself parks or is
refused, so the loops of `send_impl` and `recv_impl` turn once; a parked task goes
on when it was woken.  Every value carries the number of the call that sends it,
and the system keeps a record of what happens: which values came in, which were
handed to receivers, which were received, and what the sends reported.
-/
import Mathlib.Logic.Function.Basic
import RunD.ChannelSections

namespace RunD.Channel

variable {α : Type}

/-- A value with the number of the call that sends it. -/
structure Sent (α : Type) where
  call : Nat
  value : α
  deriving DecidableEq, Repr

/-- Where a task is in an operation: in none, or queued, and then possibly parked and woken. -/
inductive Phase where
  | idle
  | sending (call : Nat) (parked woken : Bool)
  | receiving (parked woken : Bool)
  deriving DecidableEq, Repr

namespace Phase

def park : Phase → Phase
  | idle => idle
  | sending call _ woken => sending call true woken
  | receiving _ woken => receiving true woken

def wake : Phase → Phase
  | idle => idle
  | sending call parked _ => sending call parked true
  | receiving parked _ => receiving parked true

def parked : Phase → Bool
  | idle => false
  | sending _ parked _ => parked
  | receiving parked _ => parked

def woken : Phase → Bool
  | idle => false
  | sending _ _ woken => woken
  | receiving _ woken => woken

end Phase

/-- The channel, its tasks, and the record. -/
structure System (α : Type) where
  control : Control (Sent α)
  phase : Nat → Phase := fun _ => Phase.idle
  calls : Nat := 0
  entered : List (Sent α) := []
  handed : List (Nat × Sent α) := []
  received : List (Nat × Sent α) := []
  reports : List (Nat × Option ReasonCode) := []

/-- A channel that nobody has used. -/
def System.start (capacity taskCapacity : Nat) : System α :=
  { control := Control.make capacity taskCapacity }

/-- What the tasks do. -/
inductive Action (α : Type) where
  | send (task : Nat) (value : α)
  | recv (task : Nat)
  | close
  | park (task : Nat)
  | refusePark (task : Nat)
  | resume (task : Nat)

/-- What an operation reports when it ends. -/
inductive Report (α : Type) where
  | quiet
  | sent (call valueCount : Nat)
  | sendFailed (call : Nat) (code : ReasonCode)
  | received (task : Nat) (value : Sent α) (valueCount : Nat)
  | recvFailed (task : Nat) (code : ReasonCode)
  deriving DecidableEq, Repr

/-- Tasks are woken. -/
def wakeAll (phase : Nat → Phase) (tasks : List Nat) (t : Nat) : Phase :=
  if t ∈ tasks then (phase t).wake else phase t

namespace System

variable (taskSlot : Nat → Nat) (s : System α)

/-- A send reports. -/
def reported (call : Nat) (code : Option ReasonCode) : System α :=
  { s with reports := s.reports ++ [(call, code)] }

/-- The first locked section of a send. -/
def send (task : Nat) (value : α) : Option (System α × Report α) :=
  let sent : Sent α := { call := s.calls, value }
  (sendSection taskSlot false task sent s.control).map fun (section', control) =>
    let s := { s with control, calls := s.calls + 1 }
    match section' with
    | SendSection.failed code =>
        (s.reported sent.call (some code), Report.sendFailed sent.call code)
    | SendSection.passed wakeReceiver valueCount =>
        ({ s with
          phase := wakeAll s.phase wakeReceiver.toList
          entered := s.entered ++ [sent]
          handed := s.handed ++ wakeReceiver.toList.map fun receiver => (receiver, sent)
          }.reported sent.call none,
          Report.sent sent.call valueCount)
    | SendSection.queued =>
        ({ s with
          phase := Function.update s.phase task (Phase.sending sent.call false false)
          entered := s.entered ++ [sent] },
          Report.quiet)

/-- The first locked section of a receive. -/
def recv (task : Nat) : Option (System α × Report α) :=
  (recvSection taskSlot false task s.control).map fun (section', control) =>
    let s := { s with control }
    match section' with
    | RecvSection.failed code => (s, Report.recvFailed task code)
    | RecvSection.received value wakeSender wakeReceiver valueCount =>
        ({ s with
          phase := wakeAll s.phase (wakeSender.toList ++ wakeReceiver.toList)
          handed := s.handed ++ (task, value) :: wakeReceiver.toList.filterMap fun receiver =>
            (entryAt taskSlot control.rendezvousByReceiver receiver).map fun passed =>
              (receiver, passed)
          received := s.received ++ [(task, value)] },
          Report.received task value valueCount)
    | RecvSection.queued =>
        ({ s with phase := Function.update s.phase task (Phase.receiving false false) },
          Report.quiet)

def close : System α × Report α :=
  let (waiters, control) := closeSection taskSlot s.control
  ({ s with control, phase := wakeAll s.phase waiters }, Report.quiet)

/-- The scheduler has no room for another wait. -/
def refusePark (task : Nat) : Option (System α × Report α) :=
  let idle := { s with phase := Function.update s.phase task Phase.idle }
  match s.phase task with
  | Phase.idle => none
  | Phase.sending call _ _ =>
      some
        ({ idle with control := s.control.removeSendWaiter taskSlot task }.reported call
          (some ReasonCode.channelWaitCapacityExceeded),
          Report.sendFailed call ReasonCode.channelWaitCapacityExceeded)
  | Phase.receiving _ _ =>
      some
        ({ idle with control := s.control.removeRecvWaiter taskSlot task },
          Report.recvFailed task ReasonCode.channelWaitCapacityExceeded)

/-- `CoroutineResumeSend` and `CoroutineResumeRecv`. -/
def resume (task : Nat) : Option (System α × Report α) :=
  let idle := { s with phase := Function.update s.phase task Phase.idle }
  match s.phase task with
  | Phase.idle => none
  | Phase.sending call _ _ =>
      match resumeSend taskSlot task s.control with
      | (Except.ok valueCount, control) =>
          some ({ idle with control }.reported call none, Report.sent call valueCount)
      | (Except.error code, control) =>
          some ({ idle with control }.reported call (some code), Report.sendFailed call code)
  | Phase.receiving _ _ =>
      match resumeRecv taskSlot task s.control with
      | (Except.ok (value, valueCount), control) =>
          some
            ({ idle with control, received := s.received ++ [(task, value)] },
              Report.received task value valueCount)
      | (Except.error code, control) =>
          some ({ idle with control }, Report.recvFailed task code)

/-- One step. -/
def step : Action α → Option (System α × Report α)
  | Action.send task value => s.send taskSlot task value
  | Action.recv task => s.recv taskSlot task
  | Action.close => some (s.close taskSlot)
  | Action.park task =>
      some ({ s with phase := Function.update s.phase task (s.phase task).park }, Report.quiet)
  | Action.refusePark task => s.refusePark taskSlot task
  | Action.resume task => s.resume taskSlot task

/-- A task may start an operation: it is in none, and no other task that is in one has its
slot. -/
def Ready (task : Nat) : Prop :=
  task ≠ 0 ∧ s.phase task = Phase.idle ∧ ∀ u, s.phase u ≠ Phase.idle → taskSlot u ≠ taskSlot task

/-- When a step may be taken.  A wait is refused before anything has woken its task: a task keeps
its turn to commit from the start of an operation until it parks or is refused, and no operation of
another task runs in between. -/
def Admissible : Action α → Prop
  | Action.send task _ => s.Ready taskSlot task
  | Action.recv task => s.Ready taskSlot task
  | Action.close => True
  | Action.park task => s.phase task ≠ Phase.idle ∧ (s.phase task).parked = false
  | Action.refusePark task =>
      s.phase task ≠ Phase.idle ∧ (s.phase task).parked = false ∧ (s.phase task).woken = false
  | Action.resume task => (s.phase task).parked = true ∧ (s.phase task).woken = true

end System

/-- The steps of a run, with what they report. -/
inductive Runs (taskSlot : Nat → Nat) (first : System α) :
    List (Action α × Report α) → System α → Prop
  | start : Runs taskSlot first [] first
  | step {trace : List (Action α × Report α)} {s s' : System α} {action : Action α}
      {report : Report α} (hruns : Runs taskSlot first trace s)
      (hadmissible : s.Admissible taskSlot action)
      (hstep : s.step taskSlot action = some (s', report)) :
      Runs taskSlot first (trace ++ [(action, report)]) s'

end RunD.Channel
