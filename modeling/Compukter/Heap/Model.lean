/-
The managed heap, as the allocator computes it.

One arena of 16-byte units holds every block.  A block starts with an eight-byte header (size, flags, and a
word that holds the predecessor size or, during marking, the gray-queue link); a FREE block keeps its two
list links in the next eight bytes, where an allocated block has its type id and payload.  Free blocks sit
in 256 segregated lists, found through a two-level bitmap.

Offsets, sizes and header words are natural numbers; `checkedAdd` and `checkedSub` are the 32-bit checked
operations, and a masked 64-bit expression is written with `Bits.complement 64`.  An operation that fails
returns its fault and no heap.
-/
import Compukter.Heap.Layout
import Compukter.Lib.Bytes
import Compukter.Lib.Fallible

namespace Compukter

open Bytes

/-- No block: the end of a list, or no hint. -/
def nullOffset : Nat := 2 ^ 32 - 1
/-- Octaves times the parts of an octave. -/
def classCount : Nat := 32 * 8
/-- The flags are the low bits of the first word. -/
def ALLOCATED : Nat := 1
def MARKED : Nat := 2
def LIVE : Nat := 4
def sizeMask : Nat := Bits.complement 32 (blockAlignment - 1)
/-- Where the words of a legacy header are. -/
def SIZE_FLAGS : Nat := 0
def PREVIOUS_SIZE : Nat := 4
/-- Where a free block keeps the links of its list. -/
def NEXT_FREE : Nat := 8
def PREVIOUS_FREE : Nat := 12
def OBJECT_TYPE_ID : Nat := blockHeaderBytes

/-- An octave, and one of its eighths. -/
structure SizeClass where
  (first second : Nat)
  deriving DecidableEq

/-- The bytes of a block with its header, and the type of the object in it. -/
structure AllocationRequest where
  (blockBytes typeId : Nat)
  deriving DecidableEq

/-- A block that is handed out and not yet an object. -/
structure ReservedAllocation where
  (block typeId : Nat)
  deriving DecidableEq

/-- The parts of the storage plan that the heap reads. -/
structure StoragePlan where
  headerFormat : HeaderFormat
  heapArenaBytes : Nat
  deriving DecidableEq

/-- `arena` is the byte view of the arena units; `arenaLen` is their number. -/
structure Heap where
  headerFormat : HeaderFormat
  arena : Memory
  (arenaLen arenaBytes : Nat)
  classHeads : Nat → Nat
  firstBitmap : Nat
  secondBitmaps : Nat → Nat
  (largestFreeHint totalFree liveObjects : Nat)

/-! ## Checked arithmetic, bit scans and size classes -/

/-- `checked_add` on 32-bit numbers. -/
def checkedAdd (a b : Nat) : Except VmFault Nat :=
  if a + b < 2 ^ 32 then .ok (a + b) else .error .corruptHeap

/-- `checked_sub` on 32-bit numbers. -/
def checkedSub (a b : Nat) : Except VmFault Nat :=
  if b ≤ a then .ok (a - b) else .error .corruptHeap

/-- `ok_or(VmFault::CorruptHeap)`. -/
def okOrCorrupt {α : Type} : Option α → Except VmFault α
  | some a => .ok a
  | none => .error .corruptHeap

def bitMask (bits : Nat) : Nat := (2 ^ 64 - 1) >>> (64 - bits)

/-- `trailing_zeros` of a `width`-bit word. -/
def trailingZeros (width x : Nat) : Nat := ((List.range width).find? (x.testBit ·)).getD width

/-- The class of a block size: its power of two, its eighth of that octave, and the smallest
size of the class. -/
def downwardClass (size : Nat) : Option (Nat × Nat × Nat) :=
  if size < minimumBlockBytes ∨ size % blockAlignment ≠ 0 then none
  else
    let first := 31 - leadingZeros 32 size
    let base := 1 <<< first
    let width := if first ≥ 3 then max (1 <<< (first - 3)) blockAlignment else blockAlignment
    let second := (size - base) / width
    let lowerBound := base + second * width
    if second < 8 then some (first, second, lowerBound) else none

/-- The class whose list a free block of this size is in. -/
def freeSizeClass (size : Nat) : Option SizeClass :=
  (downwardClass size).map fun (first, second, _) => ⟨first, second⟩

/-- The first class all of whose blocks are large enough. -/
def requestSizeClass (size : Nat) : Option SizeClass :=
  match downwardClass size with
  | none => none
  | some (first, second, lowerBound) =>
    let (first, second) :=
      if size ≠ lowerBound then
        if second + 1 = 8 then (first + 1, 0) else (first, second + 1)
      else (first, second)
    if first < 32 then some ⟨first, second⟩ else none

def classIndex (c : SizeClass) : Nat := c.first * 8 + c.second

namespace Heap

variable (h : Heap) (block : Nat)

/-- The same heap over another arena. -/
def setArena (arena : Memory) : Heap := { h with arena := arena }

/-- Where the payload of an object starts in its block. -/
def payloadOffset : Nat := h.headerFormat.bytes

/-! ## Words and headers -/

def readWord (block field : Nat) : Except VmFault Nat := do
  let start ← checkedAdd block field
  -- a word never straddles two arena units
  if start / 16 < h.arenaLen ∧ start % 16 + 4 ≤ 16 then
    return readLE h.arena start 4
  else throw .corruptHeap

def writeWord (block field value : Nat) : Except VmFault Heap := do
  let start ← checkedAdd block field
  if start / 16 < h.arenaLen ∧ start % 16 + 4 ≤ 16 then
    return h.setArena (writeLE h.arena start 4 value)
  else throw .corruptHeap

/-- A compact header is one 64-bit word. -/
def readCompactHeader : Except VmFault Nat :=
  if block / 16 < h.arenaLen ∧ block % 16 + 8 ≤ 16 then
    .ok (readLE h.arena block 8)
  else .error .corruptHeap

def writeCompactHeader (block header : Nat) : Except VmFault Heap :=
  if block / 16 < h.arenaLen ∧ block % 16 + 8 ≤ 16 then
    .ok (h.setArena (writeLE h.arena block 8 header))
  else .error .corruptHeap

/-- The size field of a header, before it is validated. -/
def storedSize : Except VmFault Nat :=
  match h.headerFormat with
  | .legacy => do return (← h.readWord block SIZE_FLAGS) &&& sizeMask
  | .compact sizeBits _ => do
    let units := ((← h.readCompactHeader block) >>> 3) &&& bitMask sizeBits
    if units * blockAlignment < 2 ^ 32 then return units * blockAlignment
    else throw .corruptHeap

/-- The size of a block, checked. -/
def blockSize : Except VmFault Nat := do
  let size ← h.storedSize block
  if size < minimumBlockBytes ∨ size % blockAlignment ≠ 0 then throw .corruptHeap
  return size

/-- The three lowest bits. -/
def readFlags : Except VmFault Nat :=
  match h.headerFormat with
  | .legacy => do return (← h.readWord block SIZE_FLAGS) &&& Bits.complement 32 sizeMask
  | .compact _ _ => do return (← h.readCompactHeader block) &&& 7

/-- Replaces the flags and keeps the rest. -/
def writeFlags (block flags : Nat) : Except VmFault Heap := do
  if flags &&& Bits.complement 32 7 ≠ 0 then throw .corruptHeap
  match h.headerFormat with
  | .legacy => do
    let size := (← h.readWord block SIZE_FLAGS) &&& sizeMask
    h.writeWord block SIZE_FLAGS (size ||| flags)
  | .compact _ _ => do
    let header ← h.readCompactHeader block
    h.writeCompactHeader block ((header &&& Bits.complement 64 7) ||| flags)

def blockAllocated : Except VmFault Bool := do
  return (← h.readFlags block) &&& ALLOCATED ≠ 0

/-- The size of the block before, or the link of the gray queue while the block is gray. -/
def readPreviousOrGray : Except VmFault Nat :=
  match h.headerFormat with
  | .legacy => h.readWord block PREVIOUS_SIZE
  | .compact sizeBits linkBits => do
    let units := ((← h.readCompactHeader block) >>> (3 + sizeBits)) &&& bitMask linkBits
    if units * blockAlignment < 2 ^ 32 then return units * blockAlignment
    else throw .corruptHeap

/-- The unit count that a compact header stores for a link. -/
def linkUnits (value : Nat) : Except VmFault Nat :=
  if value = nullOffset then .ok 0
  else if value % blockAlignment ≠ 0 then .error .corruptHeap
  else .ok (value / blockAlignment)

/-- A compact header stores a link as a number of units. -/
def writePreviousOrGray (block value : Nat) : Except VmFault Heap :=
  match h.headerFormat with
  | .legacy => h.writeWord block PREVIOUS_SIZE value
  | .compact sizeBits linkBits => do
    let units ← linkUnits value
    if units > bitMask linkBits then throw .corruptHeap
    let shift := 3 + sizeBits
    let mask := bitMask linkBits <<< shift
    let header ← h.readCompactHeader block
    h.writeCompactHeader block ((header &&& Bits.complement 64 mask) ||| (units <<< shift))

/-- The legacy type is a word behind the header. -/
def readType : Except VmFault Nat :=
  match h.headerFormat with
  | .legacy => h.readWord block OBJECT_TYPE_ID
  | .compact sizeBits linkBits => do
    let type := (← h.readCompactHeader block) >>> (3 + sizeBits + linkBits)
    if type < 2 ^ 32 then return type else throw .corruptHeap

def writeType (block typeId : Nat) : Except VmFault Heap :=
  match h.headerFormat with
  | .legacy => h.writeWord block OBJECT_TYPE_ID typeId
  | .compact sizeBits linkBits => do
    let shift := 3 + sizeBits + linkBits
    let mask := bitMask (64 - shift)
    if typeId > mask then throw .corruptHeap
    let header ← h.readCompactHeader block
    h.writeCompactHeader block ((header &&& Bits.complement 64 (mask <<< shift)) ||| (typeId <<< shift))

/-- The flags are those of a reserved or a free block. -/
def writeBlockHeader (block size previousSize : Nat) (allocated : Bool) : Except VmFault Heap :=
  match h.headerFormat with
  | .legacy => do
    let h ← h.writeWord block SIZE_FLAGS (size ||| allocated.toNat)
    h.writeWord block PREVIOUS_SIZE previousSize
  | .compact sizeBits linkBits => do
    if previousSize % blockAlignment ≠ 0 then throw .corruptHeap
    let sizeUnits := size / blockAlignment
    let previousUnits := previousSize / blockAlignment
    if sizeUnits > bitMask sizeBits ∨ previousUnits > bitMask linkBits then throw .corruptHeap
    h.writeCompactHeader block (allocated.toNat ||| (sizeUnits <<< 3) ||| (previousUnits <<< (3 + sizeBits)))

/-- The links are cleared with the header. -/
def writeHeader (block size previousSize : Nat) (allocated : Bool) :
    Except VmFault Heap := do
  if size < minimumBlockBytes ∨ size % blockAlignment ≠ 0 then throw .corruptHeap
  let h ← h.writeBlockHeader block size previousSize allocated
  let h ← h.writeWord block NEXT_FREE nullOffset
  h.writeWord block PREVIOUS_FREE nullOffset

/-- The block behind this one, if any, gets its size. -/
def updateNextPreviousSize (block size : Nat) : Except VmFault Heap := do
  let next ← checkedAdd block size
  if next < h.arenaBytes then h.writePreviousOrGray next size else return h

/-! ## Free lists -/

/-- The hint moves to a larger free block. -/
def observeFreeBlock : Except VmFault Heap := do
  if h.largestFreeHint = nullOffset then return { h with largestFreeHint := block }
  else if (← h.blockSize block) > (← h.blockSize h.largestFreeHint) then
    return { h with largestFreeHint := block }
  else return h

/-- Link `block` in front of the list that starts at `head`. -/
def linkFront (block head : Nat) : Except VmFault Heap := do
  let h ← h.writeWord block NEXT_FREE head
  let h ← h.writeWord block PREVIOUS_FREE nullOffset
  if head ≠ nullOffset then h.writeWord head PREVIOUS_FREE block else return h

/-- Make `block` the head of its class and set the two bitmap bits. -/
def setHead (c : SizeClass) (block : Nat) : Heap :=
  { h with
    classHeads := Function.update h.classHeads (classIndex c) block
    secondBitmaps := Function.update h.secondBitmaps c.first (h.secondBitmaps c.first ||| (1 <<< c.second))
    firstBitmap := h.firstBitmap ||| (1 <<< c.first) }

/-- Puts a block in front of the list of its class. -/
def insertFree : Except VmFault Heap := do
  let size ← h.blockSize block
  let c ← okOrCorrupt (freeSizeClass size)
  let index := classIndex c
  if index ≥ classCount then throw .corruptHeap
  let head := h.classHeads index
  let h ← h.linkFront block head
  (h.setHead c block).observeFreeBlock block

/-- Drop the hint when its block leaves the free lists. -/
def forgetHint : Heap :=
  if h.largestFreeHint = block then { h with largestFreeHint := nullOffset } else h

/-- Route the links around `block`: the forward link in the class head or in its list
predecessor, the back link in its list successor. -/
def unlink (block index next previous : Nat) : Except VmFault Heap := do
  let h ← (if previous = nullOffset then
      if h.classHeads index ≠ block then .error .corruptHeap
      else .ok { h with classHeads := Function.update h.classHeads index next }
    else h.writeWord previous NEXT_FREE next)
  if next ≠ nullOffset then h.writeWord next PREVIOUS_FREE previous else return h

/-- Clear the bitmap bits of a class whose list became empty. -/
def clearBitmaps (c : SizeClass) : Heap :=
  if h.classHeads (classIndex c) = nullOffset then
    let second := h.secondBitmaps c.first &&& Bits.complement 8 (1 <<< c.second)
    { h with
      secondBitmaps := Function.update h.secondBitmaps c.first second
      firstBitmap :=
        if second = 0 then h.firstBitmap &&& Bits.complement 32 (1 <<< c.first)
        else h.firstBitmap }
  else h

/-- Takes a block out of its list, wherever it stands there. -/
def removeFree : Except VmFault Heap := do
  let h := h.forgetHint block
  let size ← h.blockSize block
  let c ← okOrCorrupt (freeSizeClass size)
  let next ← h.readWord block NEXT_FREE
  let previous ← h.readWord block PREVIOUS_FREE
  let h ← h.unlink block (classIndex c) next previous
  let h ← (h.clearBitmaps c).writeWord block NEXT_FREE nullOffset
  h.writeWord block PREVIOUS_FREE nullOffset

/-- The head of the list that the bitmaps selected. -/
def selectedHead (selected : SizeClass) : Except VmFault (Option Nat) := do
  if classIndex selected ≥ classCount then throw .corruptHeap
  let head := h.classHeads (classIndex selected)
  if head ≠ nullOffset then return some head else throw .corruptHeap

/-- The bitmap search for a list whose class guarantees the size. -/
def searchBitmaps (size : Nat) (c : SizeClass) : Except VmFault (Option Nat) := do
  let secondMask := h.secondBitmaps c.first &&& ((255 <<< c.second) % 2 ^ 8)
  if secondMask ≠ 0 then h.selectedHead ⟨c.first, trailingZeros 8 secondMask⟩
  else
    let higherFirst :=
      if c.first = 31 then 0
      else h.firstBitmap &&& (((2 ^ 32 - 1) <<< (c.first + 1)) % 2 ^ 32)
    if higherFirst = 0 then
      -- a fitting block can hide behind a smaller bucket head: try the hint
      if h.largestFreeHint ≠ nullOffset then
        if (← h.blockSize h.largestFreeHint) ≥ size then return some h.largestFreeHint
      return none
    else
      let selectedFirst := trailingZeros 32 higherFirst
      let selectedSecond := h.secondBitmaps selectedFirst
      if selectedSecond = 0 then throw .corruptHeap
      h.selectedHead ⟨selectedFirst, trailingZeros 8 selectedSecond⟩

/-- A free block that is large enough, if the search finds one. -/
def findSuitable (size : Nat) : Except VmFault (Option Nat) :=
  match requestSizeClass size with
  | none => .ok none
  | some c => do
    let lower ← okOrCorrupt (freeSizeClass size)
    -- the rounded-up search skips the request's own bucket; its head may already fit
    if lower ≠ c then
      let head := h.classHeads (classIndex lower)
      if head ≠ nullOffset then
        if (← h.blockSize head) ≥ size then return some head
    h.searchBitmaps size c

end Heap

end Compukter
