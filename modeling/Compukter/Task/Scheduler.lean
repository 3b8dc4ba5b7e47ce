/-
The task scheduler: a table of tasks, a ring of the slots that are ready, and the slot that runs.

A call returns its result and the state it leaves, also when it fails: a failing call of the source keeps
the changes it made before it failed.  Slots of the ring that hold no task are `noSlot`.
-/
import Mathlib.Algebra.Order.Ring.Nat

namespace Compukter

/-- Ids count up and are never given twice. -/
abbrev TaskId := Nat

/-- `usize::MAX`. -/
def noSlot : Nat := 2 ^ 64 - 1

def rootTask : TaskId := 1

/-- What a task waits for. -/
inductive TaskWait
  | host (request : Nat)
  | join (task : TaskId)
  | channel (channel : Nat)
  deriving DecidableEq

/-- A completed task keeps its slot. -/
inductive TaskState
  | vacant | ready | running
  | waiting (wait : TaskWait)
  | completed
  deriving DecidableEq

inductive TaskError
  | alreadyStarted | notStarted | noCapacity | idExhausted | noRunningTask | unknownTask | wrongWait
  | selfJoin | joinCycle | corruptQueue
  deriving DecidableEq

/-- A slot of the table. -/
structure TaskRecord where
  id : Option TaskId
  state : TaskState
  deriving DecidableEq

def TaskRecord.empty : TaskRecord := ⟨none, .vacant⟩

/-- The ring `ready` has a place for every slot. -/
structure TaskScheduler where
  tasks : List TaskRecord
  ready : List Nat
  (readyHead readyLen : Nat)
  active : Option Nat
  nextId : Nat
  deriving DecidableEq

namespace TaskScheduler

/-- The result of a call and the state after it. -/
abbrev Result (α : Type) := Except TaskError α × TaskScheduler

def new (capacity : Nat) : Except TaskError TaskScheduler :=
  if capacity = 0 then .error .noCapacity
  else .ok ⟨List.replicate capacity .empty, List.replicate capacity noSlot, 0, 0, none, rootTask + 1⟩

variable (s : TaskScheduler)

/-! ## Slots -/

def stateAt (slot : Nat) : Option TaskState := s.tasks[slot]?.map TaskRecord.state

def idAt (slot : Nat) : Option TaskId := s.tasks[slot]?.bind TaskRecord.id

/-- The first slot with the id. -/
def slot (id : TaskId) : Option Nat := s.tasks.findIdx? (·.id == some id)

/-- The state of the task with this id. -/
def state (id : TaskId) : Option TaskState := (s.slot id).bind s.stateAt

/-- The task that runs. -/
def current : Except TaskError TaskId :=
  match s.active.bind s.idAt with
  | some id => .ok id
  | none => .error .noRunningTask

def setState (slot : Nat) (state : TaskState) : TaskScheduler :=
  { s with tasks := s.tasks.modify slot fun task => { task with state := state } }

/-! ## The ready ring -/

/-- The slot goes to the end of the ring. -/
def enqueue (slot : Nat) : Result Unit :=
  if s.readyLen = s.ready.length then (.error .corruptQueue, s)
  else
    let tail := (s.readyHead + s.readyLen) % s.ready.length
    (.ok (), { s with ready := s.ready.set tail slot, readyLen := s.readyLen + 1 })

/-- The ring without its first slot. -/
def popReady : TaskScheduler :=
  { s with
    ready := s.ready.set s.readyHead noSlot
    readyHead := (s.readyHead + 1) % s.ready.length
    readyLen := s.readyLen - 1 }

/-- The first slot of the ring runs, if there is one. -/
def activateNext : Result (Option TaskId) :=
  if s.active.isSome then (.error .noRunningTask, s)
  else if s.readyLen = 0 then (.ok none, s)
  else
    match s.ready[s.readyHead]? with
    -- an index out of bounds in the source; told apart from the other corruptions by nothing that follows
    | none => (.error .corruptQueue, s)
    | some slot =>
      if s.popReady.stateAt slot = some .ready then
        (.ok (s.popReady.idAt slot), { s.popReady.setState slot .running with active := some slot })
      else (.error .corruptQueue, s.popReady)

/-! ## Starting tasks -/

/-- The first task runs at once, in slot 0. -/
def startRoot : Result Unit :=
  if s.active.isSome || s.stateAt 0 != some .vacant then (.error .alreadyStarted, s)
  else (.ok (), { s with tasks := s.tasks.set 0 ⟨some rootTask, .running⟩, active := some 0 })

/-- The new task takes the first vacant slot and is ready. -/
def spawn : Result TaskId :=
  if s.active.isNone then (.error .noRunningTask, s)
  else
    match s.tasks.findIdx? (·.state == .vacant) with
    | none => (.error .noCapacity, s)
    | some slot =>
      if 2 ^ 31 ≤ s.nextId ∨ s.nextId = 0 then (.error .idExhausted, s)
      else
        let filled := { s with
          tasks := s.tasks.set slot ⟨some s.nextId, .ready⟩
          nextId := s.nextId + 1 }
        match filled.enqueue slot with
        | (.ok _, after) => (.ok s.nextId, after)
        | (.error e, after) => (.error e, after)

/-! ## Waiting -/

/-- The running task waits, and nothing runs. -/
def suspend (wait : TaskWait) : Result TaskId :=
  match s.active with
  | none => (.error .noRunningTask, s)
  | some slot =>
    let idle := { s with active := none }
    match s.idAt slot with
    | none => (.error .noRunningTask, idle)
    | some id => (.ok id, idle.setState slot (.waiting wait))

def suspendHost (request : Nat) : Result TaskId := s.suspend (.host request)

def suspendChannel (channel : Nat) : Result TaskId := s.suspend (.channel channel)

/-- The task that a task waits for. -/
def joined (id : TaskId) : Option TaskId :=
  match s.state id with
  | some (.waiting (.join next)) => some next
  | _ => none

/-- The walk of `join` along the tasks that `cursor` waits for. -/
def joinFrom (current target : TaskId) : Nat → TaskId → Result Bool
  | 0, _ => (.error .joinCycle, s)
  | fuel + 1, cursor =>
    match s.slot cursor with
    | none => (.error .unknownTask, s)
    | some _ =>
      match s.joined cursor with
      | none =>
        match s.suspend (.join target) with
        | (.ok _, after) => (.ok true, after)
        | (.error e, after) => (.error e, after)
      | some next => if next = current then (.error .joinCycle, s) else joinFrom current target fuel next

/-- A completed task is not waited for, and no cycle is closed. -/
def join (target : TaskId) : Result Bool :=
  match s.current with
  | .error e => (.error e, s)
  | .ok current =>
    if current = target then (.error .selfJoin, s)
    else
      match s.slot target with
      | none => (.error .unknownTask, s)
      | some targetSlot =>
        if s.stateAt targetSlot = some .completed then (.ok false, s)
        else s.joinFrom current target s.tasks.length target

/-! ## Completion -/

/-- The slots are woken in the order of the table. -/
def wakeJoined (completed : TaskId) : List Nat → TaskScheduler → Result Unit
  | [], s => (.ok (), s)
  | waiter :: rest, s =>
    if s.stateAt waiter = some (.waiting (.join completed)) then
      match (s.setState waiter .ready).enqueue waiter with
      | (.ok _, after) => wakeJoined completed rest after
      | (.error e, after) => (.error e, after)
    else wakeJoined completed rest s

/-- The running task ends, and those that wait for it become ready. -/
def completeCurrent : Result TaskId :=
  match s.active with
  | none => (.error .noRunningTask, s)
  | some slot =>
    let idle := { s with active := none }
    match s.idAt slot with
    | none => (.error .noRunningTask, idle)
    | some completed =>
      match wakeJoined completed (List.range s.tasks.length) (idle.setState slot .completed) with
      | (.ok _, after) => (.ok completed, after)
      | (.error e, after) => (.error e, after)

/-- A task that waits for exactly this becomes ready. -/
def completeWait (task : TaskId) (wait : TaskWait) : Result Unit :=
  match s.slot task with
  | none => (.error .unknownTask, s)
  | some slot =>
    if s.stateAt slot ≠ some (.waiting wait) then (.error .wrongWait, s)
    else (s.setState slot .ready).enqueue slot

def completeHost (task : TaskId) (request : Nat) : Result Unit := s.completeWait task (.host request)

def completeChannel (task : TaskId) (channel : Nat) : Result Unit :=
  s.completeWait task (.channel channel)

/-! ## Runs -/

/-- The calls that a run is made of. -/
inductive Call
  | spawn
  | join (target : TaskId)
  | suspendHost (request : Nat)
  | suspendChannel (channel : Nat)
  | completeHost (task : TaskId) (request : Nat)
  | completeChannel (task : TaskId) (channel : Nat)
  | completeCurrent | activateNext
  deriving DecidableEq

/-- What a call returns. -/
inductive Reply
  | done
  | task (id : TaskId)
  | joined (suspended : Bool)
  | activated (id : Option TaskId)
  deriving DecidableEq

def Result.reply {α : Type} (r : Result α) (f : α → Reply) : Result Reply := (r.1.map f, r.2)

/-- One step of a run. -/
def call (s : TaskScheduler) : Call → Result Reply
  | .spawn => s.spawn.reply .task
  | .join target => (s.join target).reply .joined
  | .suspendHost request => (s.suspendHost request).reply .task
  | .suspendChannel channel => (s.suspendChannel channel).reply .task
  | .completeHost task request => (s.completeHost task request).reply fun _ => .done
  | .completeChannel task channel => (s.completeChannel task channel).reply fun _ => .done
  | .completeCurrent => s.completeCurrent.reply .task
  | .activateNext => s.activateNext.reply .activated

/-- The states of a run, from the first on. -/
def run (s : TaskScheduler) : List Call → TaskScheduler
  | [] => s
  | c :: calls => run (s.call c).2 calls

/-- The id that a call gives to a new task. -/
def newId (c : Call) (reply : Except TaskError Reply) : List TaskId :=
  match c, reply with
  | .spawn, .ok (.task id) => [id]
  | _, _ => []

/-- The ids that the calls of a run have given to new tasks. -/
def issued (s : TaskScheduler) : List Call → List TaskId
  | [] => []
  | c :: calls => newId c (s.call c).1 ++ issued (s.call c).2 calls

/-- A new scheduler whose root task runs. -/
def started (capacity : Nat) : TaskScheduler :=
  match new capacity with
  | .ok s => s.startRoot.2
  | .error _ => ⟨[], [], 0, 0, none, rootTask + 1⟩

end TaskScheduler

end Compukter
