/-
The channel arena: channels with a part of one table of values each, and one waiter for every task slot.

The waiting tasks of a channel form two queues, of senders and of receivers, which are linked through the
waiters.  `usize::MAX` ends a queue in the source; here a link is an `Option`, since no table has a slot of
that number.

`TaskChannels` is the scheduler and the arena: the running task sends or receives, a task that has to wait is
suspended and the next one is activated, and a task that is woken becomes ready.  The saved frames of the
tasks, which resume at `resumeBlock`, are left out.
-/
import Compukter.Task.Scheduler

namespace Compukter

inductive ChannelError
  | invalidCapacity | invalidHandle | noCapacity | corruptQueue
  deriving DecidableEq

/-- How a send ends: done, with a receiver to wake, or waiting. -/
inductive SendResult
  | complete
  | wakeReceiver (task : TaskId) (destination resumeBlock : Nat)
  | suspend
  deriving DecidableEq

/-- A value, perhaps with a sender to wake, or waiting. -/
inductive ReceiveResult
  | value (value : Int) (wakeSender : Option (TaskId × Nat))
  | suspend
  deriving DecidableEq

/-- What a waiting task brings or wants. -/
inductive WaitKind
  | none
  | send (value : Int) (resumeBlock : Nat)
  | receive (destination resumeBlock : Nat)
  deriving DecidableEq

/-- The waiter of a task slot; `next` is the slot behind it in its queue. -/
structure Waiter where
  task : Option TaskId
  next : Option Nat
  kind : WaitKind
  deriving DecidableEq

def Waiter.empty : Waiter := ⟨none, none, .none⟩

/-- The buffer is a ring in the table of values from `valuesStart` on. -/
structure Channel where
  (valuesStart capacity head len : Nat)
  (sendHead sendTail receiveHead receiveTail : Option Nat)
  deriving DecidableEq

namespace Channel

def empty : Channel := ⟨0, 0, 0, 0, none, none, none, none⟩

/-- Head and tail of the senders or of the receivers. -/
def queue (channel : Channel) (send : Bool) : Option Nat × Option Nat :=
  if send then (channel.sendHead, channel.sendTail) else (channel.receiveHead, channel.receiveTail)

def setQueue (channel : Channel) (send : Bool) (head tail : Option Nat) : Channel :=
  if send then { channel with sendHead := head, sendTail := tail }
  else { channel with receiveHead := head, receiveTail := tail }

end Channel

/-- The first `channelCount` channels and `valueCount` values are in use. -/
structure ChannelArena where
  channels : List Channel
  values : List Int
  waiters : List Waiter
  (channelCount valueCount : Nat)
  deriving DecidableEq

namespace ChannelArena

/-- The result of an operation and the arena after it. -/
abbrev Result (α : Type) := Except ChannelError α × ChannelArena

/-- Without channels there are no waiters. -/
def new (channelCapacity valueCapacity taskCapacity : Nat) : ChannelArena :=
  let taskCapacity := if channelCapacity = 0 then 0 else taskCapacity
  ⟨List.replicate channelCapacity .empty, List.replicate valueCapacity 0, List.replicate taskCapacity .empty, 0, 0⟩

variable (a : ChannelArena)

/-- The handle of a channel is its index plus one. -/
def create (capacity : Int) : Result Int :=
  if capacity < 0 then (.error .invalidCapacity, a)
  else
    let capacity := capacity.toNat
    if capacity = 0 ∨ a.channelCount = a.channels.length then (.error .noCapacity, a)
    else if a.values.length < a.valueCount + capacity then (.error .noCapacity, a)
    else
      let slot := a.channelCount
      let after := { a with
        channels := a.channels.set slot { Channel.empty with valuesStart := a.valueCount, capacity := capacity }
        channelCount := slot + 1
        valueCount := a.valueCount + capacity }
      if slot + 1 < 2 ^ 31 then (.ok (slot + 1), after) else (.error .noCapacity, after)

def channelIndex (handle : Int) : Except ChannelError Nat :=
  if 1 ≤ handle ∧ handle.toNat - 1 < a.channelCount then .ok (handle.toNat - 1)
  else .error .invalidHandle

/-! ## Waiters -/

/-- The slot may not wait already. -/
def installWaiter (slot : Nat) (task : TaskId) (kind : WaitKind) : Result Unit :=
  match a.waiters[slot]? with
  | none => (.error .corruptQueue, a)
  | some waiter =>
    if waiter.task.isSome then (.error .corruptQueue, a)
    else (.ok (), { a with waiters := a.waiters.set slot ⟨some task, none, kind⟩ })

variable (index : Nat)

def setChannel (channel : Channel) : ChannelArena :=
  { a with channels := a.channels.set index channel }

def setNext (slot : Nat) (next : Option Nat) : ChannelArena :=
  { a with waiters := a.waiters.modify slot fun waiter => { waiter with next := next } }

def clearWaiter (slot : Nat) : ChannelArena := { a with waiters := a.waiters.set slot .empty }

/-- Channels are addressed by an index that `channelIndex` has checked. -/
def channel : Channel := a.channels.getD index .empty

/-- The slot goes to the end of a queue. -/
def pushWaiter (index slot : Nat) (send : Bool) : Result Unit :=
  let channel := a.channel index
  match channel.queue send with
  | (_, none) => (.ok (), a.setChannel index (channel.setQueue send (some slot) (some slot)))
  | (head, some tail) =>
    if tail < a.waiters.length then
      (.ok (), (a.setNext tail (some slot)).setChannel index (channel.setQueue send head (some slot)))
    else (.error .corruptQueue, a)

/-- The first slot of a queue leaves it. -/
def popWaiter (send : Bool) : Result Waiter :=
  let channel := a.channel index
  match (channel.queue send).1.bind fun slot => (a.waiters[slot]?).map fun waiter => (slot, waiter) with
  | none => (.error .corruptQueue, a)
  | some (slot, waiter) =>
    let tail := if waiter.next = none then none else (channel.queue send).2
    (.ok waiter, (a.setChannel index (channel.setQueue send waiter.next tail)).clearWaiter slot)

/-! ## Sending and receiving -/

/-- The value goes behind the buffered ones. -/
def pushValue (value : Int) : ChannelArena :=
  let channel := a.channel index
  let tail := (channel.head + channel.len) % channel.capacity
  { a.setChannel index { channel with len := channel.len + 1 } with
    values := a.values.set (channel.valuesStart + tail) value }

/-- The first buffered value is taken out. -/
def dropValue : ChannelArena :=
  let channel := a.channel index
  a.setChannel index { channel with head := (channel.head + 1) % channel.capacity, len := channel.len - 1 }

/-- The waiting tasks of one direction: `kind` waits behind the others. -/
def waitOn (index slot : Nat) (task : TaskId) (kind : WaitKind) (send : Bool) : Result Unit :=
  match a.installWaiter slot task kind with
  | (.error e, after) => (.error e, after)
  | (.ok _, after) => after.pushWaiter index slot send

/-- A waiting receiver gets the value, else the buffer, else the sender waits. -/
def send (handle : Int) (taskSlot : Nat) (task : TaskId) (value : Int) (resumeBlock : Nat) : Result SendResult :=
  match a.channelIndex handle with
  | .error e => (.error e, a)
  | .ok index =>
    if (a.channel index).receiveHead ≠ none then
      match a.popWaiter index false with
      | (.error e, after) => (.error e, after)
      | (.ok ⟨some task, _, .receive destination resumeBlock⟩, after) =>
        (.ok (.wakeReceiver task destination resumeBlock), after)
      | (.ok _, after) => (.error .corruptQueue, after)
    else if (a.channel index).len < (a.channel index).capacity then
      (.ok .complete, a.pushValue index value)
    else
      match a.waitOn index taskSlot task (.send value resumeBlock) true with
      | (.error e, after) => (.error e, after)
      | (.ok _, after) => (.ok .suspend, after)

/-- After a value is taken, the first waiting sender's value is buffered. -/
def receive (handle : Int) (taskSlot : Nat) (task : TaskId) (destination resumeBlock : Nat) : Result ReceiveResult :=
  match a.channelIndex handle with
  | .error e => (.error e, a)
  | .ok index =>
    if (a.channel index).len ≠ 0 then
      -- an index out of bounds in the source is a value of zero here; no run has one
      let value := a.values.getD ((a.channel index).valuesStart + (a.channel index).head) 0
      let taken := a.dropValue index
      if (a.channel index).sendHead = none then (.ok (.value value none), taken)
      else
        match taken.popWaiter index true with
        | (.error e, after) => (.error e, after)
        | (.ok ⟨task, _, .send next resumeBlock⟩, after) =>
          match task with
          | some task => (.ok (.value value (some (task, resumeBlock))), after.pushValue index next)
          | none => (.error .corruptQueue, after.pushValue index next)
        | (.ok _, after) => (.error .corruptQueue, after)
    else
      match a.waitOn index taskSlot task (.receive destination resumeBlock) false with
      | (.error e, after) => (.error e, after)
      | (.ok _, after) => (.ok .suspend, after)

end ChannelArena

/-! ## Channels and tasks -/

/-- The tasks and the channels of a machine. -/
structure TaskChannels where
  tasks : TaskScheduler
  channels : ChannelArena
  deriving DecidableEq

namespace TaskChannels

/-- An error of the arena or of the scheduler. -/
inductive Failure
  | channel (error : ChannelError)
  | task (error : TaskError)
  /-- The source's `CorruptLifecycle` for a task without a slot. -/
  | corruptLifecycle
  deriving DecidableEq

/-- What an operation does with values and waiting tasks; `send` tells senders from receivers. -/
inductive Event
  | sent (channel : Nat) (value : Int)
  | delivered (channel : Nat) (value : Int)
  | waits (channel : Nat) (send : Bool) (task : TaskId)
  | woken (channel : Nat) (send : Bool) (task : TaskId)
  deriving DecidableEq

/-- The events of an operation, and the state after it. -/
abbrev Result := Except Failure (List Event) × TaskChannels

variable (s : TaskChannels)

/-- A call of the scheduler. -/
def schedule (c : TaskScheduler.Call) (events : List Event) : Result :=
  match s.tasks.call c with
  | (.ok _, tasks) => (.ok events, { s with tasks := tasks })
  | (.error e, tasks) => (.error (.task e), { s with tasks := tasks })

/-- The running task waits for the channel and the next ready task is activated. -/
def suspendOn (handle : Int) (events : List Event) : Result :=
  match s.schedule (.suspendChannel handle.toNat) events with
  | (.error e, after) => (.error e, after)
  | (.ok events, after) => after.schedule .activateNext events

/-- A task that waited for the channel becomes ready. -/
def resumeSavedChannelTask (task : TaskId) (handle : Int) (events : List Event) : Result :=
  match s.tasks.slot task with
  | none => (.error .corruptLifecycle, s)
  | some _ => s.schedule (.completeChannel task handle.toNat) events

/-- The running task and its slot. -/
def current : Except Failure (TaskId × Nat) :=
  match s.tasks.current with
  | .error e => .error (.task e)
  | .ok current =>
    match s.tasks.slot current with
    | none => .error .corruptLifecycle
    | some slot => .ok (current, slot)

def create (capacity : Int) : Result :=
  match s.channels.create capacity with
  | (.ok _, channels) => (.ok [], { s with channels := channels })
  | (.error e, channels) => (.error (.channel e), { s with channels := channels })

def send (handle value : Int) (resumeBlock : Nat) : Result :=
  match s.current with
  | .error e => (.error e, s)
  | .ok (current, slot) =>
    let index := handle.toNat - 1
    match s.channels.send handle slot current value resumeBlock with
    | (.error e, channels) => (.error (.channel e), { s with channels := channels })
    | (.ok .complete, channels) => (.ok [.sent index value], { s with channels := channels })
    | (.ok (.wakeReceiver task _ _), channels) =>
      { s with channels := channels }.resumeSavedChannelTask task handle
        [.sent index value, .woken index false task, .delivered index value]
    | (.ok .suspend, channels) =>
      { s with channels := channels }.suspendOn handle [.sent index value, .waits index true current]

def receive (handle : Int) (destination resumeBlock : Nat) : Result :=
  match s.current with
  | .error e => (.error e, s)
  | .ok (current, slot) =>
    let index := handle.toNat - 1
    match s.channels.receive handle slot current destination resumeBlock with
    | (.error e, channels) => (.error (.channel e), { s with channels := channels })
    | (.ok (.value value none), channels) => (.ok [.delivered index value], { s with channels := channels })
    | (.ok (.value value (some (task, _))), channels) =>
      { s with channels := channels }.resumeSavedChannelTask task handle
        [.woken index true task, .delivered index value]
    | (.ok .suspend, channels) =>
      { s with channels := channels }.suspendOn handle [.waits index false current]

/-- Operations of the running task, and the other calls of the scheduler. -/
inductive Op
  | create (capacity : Int)
  | send (handle value : Int) (resumeBlock : Nat)
  | receive (handle : Int) (destination resumeBlock : Nat)
  | spawn
  | join (target : TaskId)
  | suspendHost (request : Nat)
  | completeHost (task : TaskId) (request : Nat)
  | completeCurrent | activateNext
  deriving DecidableEq

/-- One operation. -/
def step : Op → Result
  | .create capacity => s.create capacity
  | .send handle value resumeBlock => s.send handle value resumeBlock
  | .receive handle destination resumeBlock => s.receive handle destination resumeBlock
  | .spawn => s.schedule .spawn []
  | .join target => s.schedule (.join target) []
  | .suspendHost request => s.schedule (.suspendHost request) []
  | .completeHost task request => s.schedule (.completeHost task request) []
  | .completeCurrent => s.schedule .completeCurrent []
  | .activateNext => s.schedule .activateNext []

/-- The state that a run reaches and its events in order. -/
def run (s : TaskChannels) : List Op → List Event × TaskChannels
  | [] => ([], s)
  | op :: ops =>
    let (result, after) := s.step op
    let (events, last) := after.run ops
    (result.toOption.getD [] ++ events, last)

/-- The state in which the first task runs. -/
def started (channelCapacity valueCapacity taskCapacity : Nat) : TaskChannels :=
  ⟨.started taskCapacity, .new channelCapacity valueCapacity taskCapacity⟩

/-! ## Reading the state and the events -/

/-- The buffered values of a channel. -/
def buffered (index : Nat) : List Int :=
  let channel := s.channels.channel index
  (List.range channel.len).map fun i =>
    s.channels.values.getD (channel.valuesStart + (channel.head + i) % channel.capacity) 0

end TaskChannels

end Compukter
