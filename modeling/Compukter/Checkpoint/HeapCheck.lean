/-
The check of a restored heap.

`validateCheckpoint` walks the headers from the start of the arena to its end, walks the free list of every
class, and compares totals, bitmaps and the hint with what it saw.  Two more walks give what the machine
holds after a restore: the capacity of a pending reservation, and the references to all live objects.

The number of class heads is fixed in the model, so its check is not repeated.
-/
import Compukter.Checkpoint.Codec
import Compukter.Heap.Run

namespace Compukter.Heap

open Bits Fallible Checkpoint

/-- What the walk over the headers keeps of a block. -/
structure WalkedBlock where
  (offset size flags : Nat)
  deriving DecidableEq

def orInvalid {α : Type} (x : Except VmFault α) : Except CheckpointError α :=
  x.mapError fun _ => .invalidState

/-- A block that is not allocated has no other flag, and only live blocks are marked. -/
def flagsValid (flags : Nat) : Bool :=
  !(flags &&& ALLOCATED == 0 && flags != 0 || flags &&& MARKED != 0 && flags &&& LIVE == 0)

variable (h : Heap)

/-- Every block takes at least eight bytes, so a walk takes no more steps than this. -/
def blockFuel : Nat := h.arenaBytes / 8 + 1

def walkBlocks (h : Heap) : Nat → Nat → Except CheckpointError (List WalkedBlock)
  | 0, _ => .error .unfinished
  | fuel + 1, offset =>
    if offset < h.arenaBytes then do
      let size ← orInvalid (h.blockSize offset)
      let flags ← orInvalid (h.readFlags offset)
      demand (flagsValid flags) .invalidState
      demand (offset + size < 2 ^ 32 && offset + size ≤ h.arenaBytes) .invalidState
      let rest ← h.walkBlocks fuel (offset + size)
      return ⟨offset, size, flags⟩ :: rest
    else .ok []

def freeTotal (blocks : List WalkedBlock) : Nat := ((blocks.filter (·.flags == 0)).map (·.size)).sum

def liveTotal (blocks : List WalkedBlock) : Nat := (blocks.filter (·.flags &&& LIVE != 0)).length

/-- The list of one class from `cursor` on.  `visited` are the blocks that were listed before; none may be
listed again, so the walk ends after at most one step for each block. -/
def walkClass (h : Heap) (blocks : List WalkedBlock) (class_ : Nat) :
    Nat → Nat → Nat → List Nat → Except CheckpointError (List Nat)
  | 0, _, _, _ => .error .unfinished
  | fuel + 1, cursor, previous, visited =>
    if cursor = nullOffset then .ok []
    else do
      let block ← demandSome (blocks.find? (·.offset == cursor)) .invalidState
      demand (!visited.contains cursor && block.flags == 0 &&
        (freeSizeClass block.size).map classIndex == some class_) .invalidState
      let back ← orInvalid (h.readWord cursor PREVIOUS_FREE)
      demand (back == previous) .invalidState
      let next ← orInvalid (h.readWord cursor NEXT_FREE)
      let rest ← walkClass h blocks class_ fuel next cursor (cursor :: visited)
      return cursor :: rest

def walkLists (h : Heap) (blocks : List WalkedBlock) :
    List Nat → List Nat → Except CheckpointError (List (List Nat))
  | [], _ => .ok []
  | class_ :: rest, visited => do
    let list ← h.walkClass blocks class_ (blocks.length + 1) (h.classHeads class_) nullOffset visited
    let lists ← h.walkLists blocks rest (list ++ visited)
    return list :: lists

/-- The bits of the classes that have a list. -/
def classBits (bit : Nat → Nat) (counts : Nat → Bool) : Nat :=
  (List.range classCount).foldl
    (fun bits c => if h.classHeads c ≠ nullOffset ∧ counts c then bits ||| 1 <<< bit c else bits) 0

def validateCheckpoint (plan : StoragePlan) : Except CheckpointError Unit := do
  demand (h.headerFormat == plan.headerFormat && h.arenaBytes == plan.heapArenaBytes &&
    h.arenaLen * 16 == h.arenaBytes) .invalidState
  let blocks ← h.walkBlocks h.blockFuel 0
  demand (freeTotal blocks == h.totalFree && liveTotal blocks == h.liveObjects) .invalidState
  let lists ← h.walkLists blocks (List.range classCount) []
  demand (h.classBits (· / 8) (fun _ => true) == h.firstBitmap &&
    (List.range 32).all fun f => h.classBits (· % 8) (· / 8 == f) == h.secondBitmaps f) .invalidState
  demand (blocks.all fun block => (block.flags == 0) == lists.flatten.contains block.offset) .invalidState
  demand (h.largestFreeHint == nullOffset ||
    blocks.any fun block => block.offset == h.largestFreeHint && block.flags == 0) .invalidState

/-! ## What a restored machine holds -/

def reservationCapacityFrom (h : Heap) (r : ReservedAllocation) : Nat → Nat → Except CheckpointError Nat
  | 0, _ => .error .unfinished
  | fuel + 1, offset =>
    if offset < h.arenaBytes then do
      let size ← orInvalid (h.blockSize offset)
      if offset = r.block then
        orInvalid (h.validateReservation r)
        demand (h.payloadOffset ≤ size) .invalidState
        return size - h.payloadOffset
      demand (offset + size < 2 ^ 32) .invalidState
      h.reservationCapacityFrom r fuel (offset + size)
    else .error .invalidState

def checkpointReservationCapacity (r : ReservedAllocation) : Except CheckpointError Nat :=
  h.reservationCapacityFrom r h.blockFuel 0

/-- The reference to the object of a block, when there is one. -/
def ownReference (offset flags : Nat) : Except CheckpointError (List Ref32) :=
  if flags &&& LIVE ≠ 0 then do
    demand (offset + OBJECT_TYPE_ID < 2 ^ 32) .invalidState
    return [← demandSome (Ref32.managed (offset + OBJECT_TYPE_ID)) .invalidState]
  else .ok []

def liveReferencesFrom (h : Heap) : Nat → Nat → Except CheckpointError (List Ref32)
  | 0, _ => .error .unfinished
  | fuel + 1, offset =>
    if offset < h.arenaBytes then do
      let size ← orInvalid (h.blockSize offset)
      let flags ← orInvalid (h.readFlags offset)
      let own ← ownReference offset flags
      demand (offset + size < 2 ^ 32 && offset + size ≤ h.arenaBytes) .invalidState
      let rest ← h.liveReferencesFrom fuel (offset + size)
      return own ++ rest
    else .ok []

def checkpointLiveReferences : Except CheckpointError (List Ref32) :=
  h.liveReferencesFrom h.blockFuel 0

end Compukter.Heap
