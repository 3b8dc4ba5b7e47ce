/-
The operations of the managed heap.

`reserve` takes a block out of the free lists, `commit` turns a reservation into a live object
and `abort` gives it back; `free` releases a live object.  The payload operations read and write
the bytes of one block; the gray queue and the sweep of one block are the collector's.
-/
import Compukter.Heap.Model

namespace Compukter.Heap

open Bytes

/-! ## Release with coalescing -/

/-- A block that `freeBlock` is about to write: its offset, size and predecessor size. -/
structure Extent where
  (offset size previousSize : Nat)
  deriving DecidableEq

variable (h : Heap) (reservation : ReservedAllocation)

/-- Absorb a free predecessor into the block being released. -/
def absorbPrevious (e : Extent) : Except VmFault (Heap × Extent) :=
  if e.offset ≠ 0 then do
    let previous ← checkedSub e.offset e.previousSize
    if !(← h.blockAllocated previous) then
      let h ← h.removeFree previous
      let size ← checkedAdd e.size (← h.blockSize previous)
      return (h, ⟨previous, size, ← h.readPreviousOrGray previous⟩)
    else return (h, e)
  else .ok (h, e)

/-- Absorb a free successor into the block being released. -/
def absorbNext (e : Extent) : Except VmFault (Heap × Extent) := do
  let next ← checkedAdd e.offset e.size
  if next < h.arenaBytes then
    if !(← h.blockAllocated next) then
      let h ← h.removeFree next
      return (h, { e with size := ← checkedAdd e.size (← h.blockSize next) })
    else return (h, e)
  else return (h, e)

def freeBlock (block : Nat) : Except VmFault Heap := do
  if !(← h.blockAllocated block) then throw .corruptHeap
  let originalSize ← h.blockSize block
  let previousSize ← h.readPreviousOrGray block
  let (h, e) ← h.absorbPrevious ⟨block, originalSize, previousSize⟩
  let (h, e) ← h.absorbNext e
  -- an absorbed header becomes interior storage and must no longer look allocated
  let h ← (if e.offset ≠ block then h.writeFlags block 0 else .ok h)
  let h ← h.writeHeader e.offset e.size e.previousSize false
  let h ← h.updateNextPreviousSize e.offset e.size
  let h ← h.insertFree e.offset
  let totalFree ← checkedAdd h.totalFree originalSize
  return { h with totalFree := totalFree }

/-! ## Construction and allocation -/

def new (plan : StoragePlan) : Except AdmissionError Heap := do
  if plan.heapArenaBytes ≥ 2 ^ 32 then throw .residentStorageOverflow
  let heapBytes := plan.heapArenaBytes
  if heapBytes < 32 ∨ heapBytes % 16 ≠ 0 ∨ heapBytes > Ref32.maxPayload then
    throw (.invalidHeapSize heapBytes)
  let heap : Heap := {
    headerFormat := plan.headerFormat
    arena := fun _ => 0
    arenaLen := heapBytes / 16
    arenaBytes := heapBytes
    classHeads := fun _ => nullOffset
    firstBitmap := 0
    secondBitmaps := fun _ => 0
    largestFreeHint := nullOffset
    totalFree := heapBytes
    liveObjects := 0 }
  match heap.writeHeader 0 heapBytes 0 false with
  | .error _ => throw .storagePlanOverflow
  | .ok heap =>
    match heap.insertFree 0 with
    | .error _ => throw .storagePlanOverflow
    | .ok heap => return heap

/-- Cut the unused tail off a block taken for a request, when it is large enough to be a block;
the result is the size that stays allocated. -/
def splitRemainder (block blockSize requested : Nat) : Except VmFault (Heap × Nat) :=
  let remainder := blockSize - requested
  if remainder ≥ minimumBlockBytes then do
    let remainderOffset ← checkedAdd block requested
    let h ← h.writeHeader remainderOffset remainder requested false
    let h ← h.updateNextPreviousSize remainderOffset remainder
    let h ← h.insertFree remainderOffset
    return (h, requested)
  else .ok (h, blockSize)

def reserve (request : AllocationRequest) :
    Except VmFault (Heap × Option ReservedAllocation) := do
  if request.blockBytes < minimumBlockBytes ∨ request.blockBytes % blockAlignment ≠ 0 then
    throw .invalidStoragePlan
  match ← h.findSuitable request.blockBytes with
  | none => return (h, none)
  | some block =>
    let blockSize ← h.blockSize block
    if blockSize < request.blockBytes then throw .corruptHeap
    let previousSize ← h.readPreviousOrGray block
    let h ← h.removeFree block
    let (h, allocatedSize) ← h.splitRemainder block blockSize request.blockBytes
    let h ← h.writeHeader block allocatedSize previousSize true
    let totalFree ← checkedSub h.totalFree allocatedSize
    return ({ h with totalFree := totalFree }, some ⟨block, request.typeId⟩)

def validateReservation : Except VmFault Unit := do
  if !(← h.blockAllocated reservation.block) then throw .corruptHeap
  if (← h.readFlags reservation.block) &&& LIVE ≠ 0 then throw .corruptHeap

def commit : Except VmFault (Heap × Ref32) := do
  h.validateReservation reservation
  let h ← h.writeType reservation.block reservation.typeId
  let flags ← h.readFlags reservation.block
  let h ← h.writeFlags reservation.block (flags ||| LIVE)
  let liveObjects ← checkedAdd h.liveObjects 1
  let h := { h with liveObjects := liveObjects }
  let objectHeader ← checkedAdd reservation.block OBJECT_TYPE_ID
  return (h, ← okOrCorrupt (Ref32.managed objectHeader))

def abort : Except VmFault Heap := do
  h.validateReservation reservation
  h.freeBlock reservation.block

variable (reference : Ref32)

def liveBlock : Except VmFault Nat := do
  if reference.domain ≠ .managed ∨ reference.payload < OBJECT_TYPE_ID ∨
      reference.payload % blockAlignment ≠ 0 then
    throw .invalidReference
  let block := reference.payload - OBJECT_TYPE_ID
  if block ≥ h.arenaBytes then throw .invalidReference
  if !(← h.blockAllocated block) then throw .invalidReference
  if (← h.readFlags block) &&& LIVE = 0 then throw .invalidReference
  return block

/-- `true` when the reference named a live object, which is then gone. -/
def free : Except VmFault (Heap × Bool) :=
  if reference.domain ≠ .managed then .ok (h, false)
  else
    match h.liveBlock reference with
    | .error _ => .ok (h, false)
    | .ok block => do
      let liveObjects ← checkedSub h.liveObjects 1
      let h ← { h with liveObjects := liveObjects }.freeBlock block
      return (h, true)

/-! ## Payload access -/

/-- The byte loop of every payload write. -/
def storeBytes (h : Heap) (position : Nat) : List UInt8 → Except VmFault Heap
  | [] => .ok h
  | byte :: bytes =>
    if position / 16 < h.arenaLen then
      storeBytes (h.setArena (Function.update h.arena position byte)) (position + 1) bytes
    else .error .corruptHeap

/-- The byte loop of a payload read. -/
def loadBytes (h : Heap) (position : Nat) : Nat → Except VmFault (List UInt8)
  | 0 => .ok []
  | length + 1 => do
    if position / 16 ≥ h.arenaLen then throw .corruptHeap
    return h.arena position :: (← loadBytes h (position + 1) length)

/-- The start of `length` payload bytes at `offset` in a block, inside the block's capacity. -/
def payloadSpan (block offset length : Nat) : Except VmFault Nat := do
  let capacity ← checkedSub (← h.blockSize block) h.payloadOffset
  let stop ← checkedAdd offset length
  if stop > capacity then throw .corruptHeap
  let base ← checkedAdd block h.payloadOffset
  checkedAdd base offset

/-- The four little-endian bytes of a word. -/
def leBytes (value : Nat) : List UInt8 :=
  [UInt8.ofNat value, UInt8.ofNat (value / 256), UInt8.ofNat (value / 256 ^ 2), UInt8.ofNat (value / 256 ^ 3)]

def zeroReservedPayload (offset length : Nat) :
    Except VmFault Heap := do
  h.validateReservation reservation
  let start ← h.payloadSpan reservation.block offset length
  h.storeBytes start (List.replicate length 0)

def writeReservedU32 (offset value : Nat) :
    Except VmFault Heap := do
  h.validateReservation reservation
  let start ← h.payloadSpan reservation.block offset 4
  h.storeBytes start (leBytes value)

def writeReserved (offset : Nat)
    (bytes : List UInt8) : Except VmFault Heap := do
  h.validateReservation reservation
  if bytes.length ≥ 2 ^ 32 then throw .corruptHeap
  let start ← h.payloadSpan reservation.block offset bytes.length
  h.storeBytes start bytes

/-- Up to eight payload bytes, padded with zeros. -/
def readPayload (offset length : Nat) :
    Except VmFault (List UInt8) := do
  let block ← h.liveBlock reference
  let start ← h.payloadSpan block offset length
  if length > 8 then throw .corruptHeap
  let bytes ← h.loadBytes start length
  return bytes ++ List.replicate (8 - length) 0

def writePayload (offset : Nat) (bytes : List UInt8) :
    Except VmFault Heap := do
  let block ← h.liveBlock reference
  if bytes.length ≥ 2 ^ 32 then throw .corruptHeap
  let start ← h.payloadSpan block offset bytes.length
  h.storeBytes start bytes

/-- One validated span of a payload copy. -/
def copySpan (offset length : Nat) : Except VmFault Nat := do
  let block ← h.liveBlock reference
  let start ← h.payloadSpan block offset length
  if (← checkedAdd start length) > h.arenaBytes then throw .corruptHeap
  return start

def copyPayloadRange (source : Ref32) (sourceOffset : Nat) (destination : Ref32)
    (destinationOffset length : Nat) : Except VmFault Heap := do
  let sourceStart ← h.copySpan source sourceOffset length
  let destinationStart ← h.copySpan destination destinationOffset length
  return h.setArena (copyWithin h.arena sourceStart destinationStart length)

def managedType : Except VmFault Nat := do
  h.readType (← h.liveBlock reference)

/-! ## Collector support -/

def enqueueGray (head tail : Option Nat) :
    Except VmFault (Heap × Option Nat × Option Nat) := do
  if reference.domain ≠ .managed then return (h, head, tail)
  let block ← h.liveBlock reference
  let flags ← h.readFlags block
  if flags &&& MARKED ≠ 0 then return (h, head, tail)
  let h ← h.writeFlags block (flags ||| MARKED)
  let h ← h.writePreviousOrGray block nullOffset
  match tail with
  | some previous =>
    let previous ← okOrCorrupt (Ref32.managed previous)
    let previousBlock ← h.liveBlock previous
    let h ← h.writePreviousOrGray previousBlock reference.payload
    return (h, head, some reference.payload)
  | none => return (h, some reference.payload, some reference.payload)

/-- The dequeued reference with its type id, and the new queue ends. -/
def dequeueGray (head tail : Option Nat) : Except VmFault (Heap × Option Nat × Option Nat × Option (Ref32 × Nat)) :=
  match head with
  | none => .ok (h, none, tail, none)
  | some payload => do
    let reference ← okOrCorrupt (Ref32.managed payload)
    let block ← h.liveBlock reference
    let next ← h.readPreviousOrGray block
    let h ← h.writePreviousOrGray block nullOffset
    let head := if next ≠ nullOffset ∧ next ≠ 0 then some next else none
    let tail := if head = none then none else tail
    return (h, head, tail, some (reference, ← h.managedType reference))

/-- Where the free block will start that releasing the block at `offset` leaves. -/
def mergedStart (offset previousSize : Nat) : Except VmFault Nat :=
  if offset ≠ 0 then do
    let previous ← checkedSub offset previousSize
    if ← h.blockAllocated previous then return offset else return previous
  else .ok offset

/-- Sweep the block at `offset`; the result is the next cursor with its predecessor size. -/
def sweepBlock (offset previousSize : Nat) : Except VmFault (Heap × Nat × Nat) := do
  if offset ≥ h.arenaBytes then throw .corruptHeap
  let size ← h.blockSize offset
  let h ← h.writePreviousOrGray offset previousSize
  if !(← h.blockAllocated offset) then
    let h ← h.observeFreeBlock offset
    return (h, ← checkedAdd offset size, size)
  let flags ← h.readFlags offset
  if flags &&& LIVE = 0 then throw .corruptHeap
  if flags &&& MARKED ≠ 0 then
    let h ← h.writeFlags offset (flags &&& Bits.complement 32 MARKED)
    return (h, ← checkedAdd offset size, size)
  let previousSize ← h.readPreviousOrGray offset
  let merged ← h.mergedStart offset previousSize
  let reference ← okOrCorrupt (Ref32.managed (← checkedAdd offset OBJECT_TYPE_ID))
  let (h, freed) ← h.free reference
  if !freed then throw .corruptHeap
  let mergedSize ← h.blockSize merged
  return (h, ← checkedAdd merged mergedSize, mergedSize)

end Compukter.Heap
