/-
The incremental collector.

A collection is `start` followed by `step` until the phase is idle again.  One step enqueues one
root, follows one reference, dequeues one gray object or sweeps one block:

    idle --start--> roots --> mark --> sweep --> idle

The gray queue lives in the boundary tags of the marked blocks (`enqueueGray`, `dequeueGray`), so
marking destroys the tags and the sweep writes them again.
-/
import Compukter.Gc.Roots

namespace Compukter

open Bytes

inductive CollectorPhase where
  | idle | roots | mark | sweep
  deriving DecidableEq

/-- An object whose references are being followed. -/
inductive Scan where
  | object (reference : Ref32) (next : Nat)
  | referenceArray (reference : Ref32) (next length : Nat)
  deriving DecidableEq

structure Collector where
  phase : CollectorPhase
  (epoch runtimeRoot taskFailure externalRoot staticField frame savedFrame register : Nat)
  (grayHead grayTail : Option Nat)
  scan : Option Scan
  (sweepOffset sweepPreviousSize : Nat)
  deriving DecidableEq

namespace Collector

def new : Collector := ⟨.idle, 0, 0, 0, 0, 0, 0, 0, 0, none, none, none, 0, 0⟩

variable (c : Collector) (image : ImageView) (roots : RootSet)

def start : Collector :=
  ⟨.roots, if c.epoch = 1 then 2 else 1, 0, 0, 0, 0, 0, 0, 0, none, none, none, 0, 0⟩

/-! ## The next root -/

/-- The first entry that holds a reference, with the cursor after it. -/
def firstEntry : List (Option Ref32) → Nat → Nat × Option Ref32
  | [], index => (index, none)
  | some reference :: _, index => (index + 1, some reference)
  | none :: entries, index => firstEntry entries (index + 1)

/-- The first static reference field, with the cursor after it. -/
def firstStatic : List FieldSlot → Nat → Nat × Option Nat
  | [], index => (index, none)
  | ⟨kind, slot⟩ :: fields, index =>
    match slot with
    | some slot => if kind = 7 then (index + 1, some slot) else firstStatic fields (index + 1)
    | none => firstStatic fields (index + 1)

/-- The root in a frame register, or `none` when the safepoint map has no more of them. -/
def frameRoot (arena : FrameArena) (frame : Frame) (register : Nat) : Except VmFault (Option RuntimeValue) :=
  if frame.instruction ≥ 2 ^ 32 then .error .invalidRootMap
  else
    match image.safepointMap frame.function frame.block frame.instruction with
    | none => .error .invalidRootMap
    | some offsets =>
      match offsets[register]? with
      | none => .ok none
      | some offset => do
        let reference ← arena.readRef32Offset ⟨frame.base, frame.byteLen⟩ offset
        return some (.ofReference reference)

/-- The loop over the active frames; the count is what is left below the depth. -/
def activeRoot (image : ImageView) (roots : RootSet) : Nat → Nat → Nat →
    Except VmFault (Nat × Nat × Option RuntimeValue)
  | 0, frame, register => .ok (frame, register, none)
  | count + 1, frame, register =>
    match roots.frames[frame]? with
    | none => .error .corruptLifecycle
    | some record => do
      match ← frameRoot image roots.frameArena record register with
      | some value => return (frame, register + 1, some value)
      | none => activeRoot image roots count (frame + 1) 0

/-- The loop over the saved frames from the cursor on; empty slots are skipped. -/
def savedRoot (image : ImageView) (roots : RootSet) : List Frame → Nat → Nat →
    Except VmFault (Nat × Nat × Option RuntimeValue)
  | [], frame, register => .ok (frame, register, none)
  | record :: records, frame, register =>
    if record.function = usizeMax then savedRoot image roots records (frame + 1) 0
    else do
      match ← frameRoot image roots.frameArena record register with
      | some value => return (frame, register + 1, some value)
      | none => savedRoot image roots records (frame + 1) 0

/-- The roots in frames: active frames first, then saved ones. -/
def nextFrameRoot :
    Except VmFault (Collector × Option RuntimeValue) := do
  let (frame, register, root) ←
    activeRoot image roots (roots.frameDepth - c.frame) c.frame c.register
  let c := { c with frame := frame, register := register }
  match root with
  | some value => return (c, some value)
  | none =>
    let (savedFrame, register, root) ←
      savedRoot image roots (roots.savedFrames.drop c.savedFrame) c.savedFrame c.register
    return ({ c with savedFrame := savedFrame, register := register }, root)

/-- The roots in static fields, then those in frames. -/
def nextStaticRoot : Except VmFault (Collector × Option RuntimeValue) :=
  let (staticField, slot) := firstStatic (image.fields.drop c.staticField) c.staticField
  let c := { c with staticField := staticField }
  match slot with
  | some slot => do
    let reference ← roots.statics.reference slot
    return (c, some (.ofReference reference))
  | none => c.nextFrameRoot image roots

/-- The roots that the host holds, then those of the program. -/
def nextExternalRoot : Except VmFault (Collector × Option RuntimeValue) :=
  let (externalRoot, root) := firstEntry (roots.external.drop c.externalRoot) c.externalRoot
  let c := { c with externalRoot := externalRoot }
  match root with
  | some reference => .ok (c, some (.reference reference))
  | none => c.nextStaticRoot image roots

/-- The exceptions of failed tasks, one a call, then the other roots. -/
def nextFailureRoot : Except VmFault (Collector × Option RuntimeValue) :=
  match roots.taskFailures[c.taskFailure]? with
  | some failure => .ok ({ c with taskFailure := c.taskFailure + 1 }, some (.ofReference failure))
  | none => c.nextExternalRoot image roots

def nextRoot : Except VmFault (Collector × Option RuntimeValue) :=
  let (runtimeRoot, root) := firstEntry (roots.runtimeRoots.drop c.runtimeRoot) c.runtimeRoot
  let c := { c with runtimeRoot := runtimeRoot }
  match root with
  | some reference => .ok (c, some (.reference reference))
  | none => c.nextFailureRoot image roots

/-! ## Marking -/

variable (h : Heap)

def enqueueValue (value : RuntimeValue) : Except VmFault (Collector × Heap) :=
  match value with
  | .reference reference => do
    let (h, head, tail) ← h.enqueueGray reference c.grayHead c.grayTail
    return ({ c with grayHead := head, grayTail := tail }, h)
  | _ => .ok (c, h)

/-- The layout behind a type id. -/
def layoutOf (typeId : Nat) : Except VmFault RuntimeTypeLayout :=
  match image.typeKey typeId with
  | none => .error .invalidResolvedId
  | some key =>
    match image.typeLayout key with
    | none => .error .invalidResolvedId
    | some layout => .ok layout

/-- Follow one reference of the object being scanned. -/
def scanStep (image : ImageView) :
    Scan → Except VmFault (Collector × Heap)
  | .object reference next => do
    match ← layoutOf image (← h.managedType reference) with
    | .object layout =>
      match layout.referenceOffsets[next]? with
      | none => throw .corruptLifecycle
      | some offset =>
        let value ← loadValue h reference offset .ref
        let (c, h) ← c.enqueueValue h value
        let scan := if next + 1 < layout.referenceOffsets.length then
          some (.object reference (next + 1)) else none
        return ({ c with scan := scan }, h)
    | _ => throw .corruptHeap
  | .referenceArray reference next length => do
    if next * 4 ≥ 2 ^ 32 ∨ 8 + next * 4 ≥ 2 ^ 32 then throw .corruptHeap
    let value ← loadValue h reference (8 + next * 4) .ref
    let (c, h) ← c.enqueueValue h value
    let scan := if next + 1 < length then some (.referenceArray reference (next + 1) length) else none
    return ({ c with scan := scan }, h)

/-- What is to be scanned of a dequeued object. -/
def scanOf (reference : Ref32) : RuntimeTypeLayout → Except VmFault (Option Scan)
  | .object layout =>
    if layout.referenceOffsets ≠ [] then .ok (some (.object reference 0)) else .ok none
  | .array .ref => do
    let bytes ← h.readPayload reference 0 4
    let length := ofBytesLE (bytes.take 4)
    return if length ≠ 0 then some (.referenceArray reference 0 length) else none
  | .array _ => .ok none
  | .nonHeap => .ok none

def markStep (image : ImageView) : Except VmFault (Collector × Heap) :=
  match c.scan with
  | some scan => c.scanStep h image scan
  | none => do
    let (h, head, tail, dequeued) ← h.dequeueGray c.grayHead c.grayTail
    let c := { c with grayHead := head, grayTail := tail }
    match dequeued with
    | none => return ({ c with phase := .sweep, sweepOffset := 0, sweepPreviousSize := 0 }, h)
    | some (reference, typeId) =>
      let layout ← layoutOf image typeId
      let scan ← scanOf h reference layout
      return ({ c with scan := scan }, h)

/-! ## One step -/

def rootStep (image : ImageView) (roots : RootSet) :
    Except VmFault (Collector × Heap) := do
  match ← c.nextRoot image roots with
  | (c, some root) => c.enqueueValue h root
  | (c, none) => return ({ c with phase := .mark }, h)

def sweepStep : Except VmFault (Collector × Heap) :=
  if c.sweepOffset = h.arenaBytes then .ok ({ c with phase := .idle }, h)
  else do
    let (h, offset, previousSize) ← h.sweepBlock c.sweepOffset c.sweepPreviousSize
    return ({ c with sweepOffset := offset, sweepPreviousSize := previousSize }, h)

def step (image : ImageView) (roots : RootSet) : Except VmFault (Collector × Heap) :=
  match c.phase with
  | .idle => .ok (c, h)
  | .roots => c.rootStep h image roots
  | .mark => c.markStep h image
  | .sweep => c.sweepStep h

end Collector

end Compukter
