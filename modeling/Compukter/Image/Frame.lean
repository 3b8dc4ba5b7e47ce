/-
Frame layouts and the arena that frames live in.

A layout gives every component of every value of a function its offset; a safepoint map is a list of such
offsets.  The arena is one block of bytes.  Its unused regions form a list in address order, which is kept in
the regions themselves: the first eight bytes of a region are the next region and the length.

The collector only reads frames, so its `FrameLayout` and `FrameArena` stand on their own; here they are
extended by what building and releasing a frame needs.
-/
import Compukter.Gc.Roots

namespace Compukter.Image

open Bytes Fallible

/-! ## Layouts -/

/-- Rounding up in `u32`, to an alignment that is a power of two. -/
def align (value alignment : Nat) : Option Nat :=
  if value + (alignment - 1) < 2 ^ 32 then some ((value + (alignment - 1)) / alignment * alignment)
  else none

def checkedU32 (n : Nat) : Option Nat := if n < 2 ^ 32 then some n else none

/-- A frame layout with its size. -/
structure FrameShape extends FrameLayout where
  (byteLen alignment : Nat)
  deriving DecidableEq

/-- The components of one value; an atom is aligned to its size. -/
def placeAtoms : List PhysicalAtom → Nat → Nat → Option (List ComponentLayout × Nat × Nat)
  | [], offset, alignment => some ([], offset, alignment)
  | atom :: rest, offset, alignment => do
    let start ← align offset atom.byteSize
    let next ← checkedU32 (start + atom.byteSize)
    let (components, offset, alignment) ← placeAtoms rest next (max alignment atom.byteSize)
    some (⟨start, atom⟩ :: components, offset, alignment)

def placeValues : List (List PhysicalAtom) → Nat → Nat → Option (List (List ComponentLayout) × Nat × Nat)
  | [], offset, alignment => some ([], offset, alignment)
  | value :: rest, offset, alignment => do
    let (components, offset, alignment) ← placeAtoms value offset alignment
    let (values, offset, alignment) ← placeValues rest offset alignment
    some (components :: values, offset, alignment)

/-- `derive` and `derive_scalars` place their atoms the same way. -/
def deriveAtoms (values : List (List PhysicalAtom)) : Option FrameShape := do
  let (values, offset, alignment) ← placeValues values 0 1
  some ⟨⟨values⟩, ← align offset alignment, alignment⟩

def derive (values : List FunctionValue) : Option FrameShape := deriveAtoms (values.map (·.components))

def deriveScalars (atoms : List PhysicalAtom) : Option FrameShape := deriveAtoms (atoms.map fun a => [a])

/-- The first component of a register and the kind it is read as. -/
structure FrameValueAccess where
  kind : Nat
  component : Option ComponentLayout
  deriving DecidableEq

def valueAccess (layout : FrameLayout) (kind value : Nat) : FrameValueAccess :=
  ⟨kind, (layout.values[value]?).bind (·.head?)⟩

/-- The offsets of the listed components, which are references in ascending order. -/
def safepointOffsets (layout : FrameLayout) : List ValueComponent → Option Nat → Option (List Nat)
  | [], _ => some []
  | reference :: rest, previous => do
    let component ← (layout.values[reference.value]?).bind (·[reference.component]?)
    if component.atom ≠ .ref32 then none
    else if previous.any (component.offset ≤ ·) then none
    else
      let offsets ← safepointOffsets layout rest (some component.offset)
      some (component.offset :: offsets)

def deriveSafepoint (layout : FrameLayout) (references : List ValueComponent) : Option (List Nat) :=
  safepointOffsets layout references none

/-! ## The arena -/

structure FrameStack extends FrameArena where
  freeHead : Option Nat

/-- How an operation on the arena fails. -/
inductive Refusal
  | fault (f : VmFault)
  /-- Not of the source: the walk along the regions does not end. -/
  | endless
  deriving DecidableEq

def absentRegion : Nat := 2 ^ 32 - 1

namespace FrameStack

variable (a : FrameStack)

def readFree (base : Nat) : Except Refusal (Option Nat × Nat) :=
  if base + 8 ≤ a.length then
    let next := readLE a.bytes base 4
    let length := readLE a.bytes (base + 4) 4
    if length < 8 ∨ length % 8 ≠ 0 then .error (.fault .corruptLifecycle)
    else .ok (if next ≠ absentRegion then some next else none, length)
  else .error (.fault .corruptLifecycle)

def writeFree (base : Nat) (next : Option Nat) (length : Nat) : Except Refusal FrameStack :=
  if base + 8 ≤ a.length then
    .ok { a with
      bytes := writeLE (writeLE a.bytes base 4 (next.getD absentRegion)) (base + 4) 4 length }
  else .error (.fault .corruptLifecycle)

def new (capacity : Nat) : Except Refusal FrameStack :=
  let arena : FrameStack := ⟨⟨fun _ => 0, capacity⟩, if 8 ≤ capacity then some 0 else none⟩
  if 8 ≤ capacity then arena.writeFree 0 none capacity else .ok arena

/-- What is left of a region behind the bytes taken from its front. -/
def splitRegion (region byteLen : Nat) (next : Option Nat) (remaining : Nat) :
    Except Refusal (FrameStack × Option Nat) :=
  if remaining = 0 then .ok (a, next)
  else if region + byteLen < 2 ^ 32 then do
    let a ← a.writeFree (region + byteLen) next remaining
    return (a, some (region + byteLen))
  else .error (.fault .invalidStoragePlan)

/-- The first region that is long enough gives its front. -/
def takeRegion (byteLen : Nat) : Nat → Option Nat → Option Nat → Except Refusal (FrameStack × Nat)
  | 0, _, _ => .error .endless
  | _ + 1, _, none => .error (.fault .invalidStoragePlan)
  | fuel + 1, previous, some region => do
    let (next, available) ← a.readFree region
    if byteLen ≤ available then
      let (a, replacement) ← a.splitRegion region byteLen next (available - byteLen)
      match previous with
      | some previous =>
        let (_, previousLen) ← a.readFree previous
        return (← a.writeFree previous replacement previousLen, region)
      | none => return ({ a with freeHead := replacement }, region)
    else takeRegion byteLen fuel (some region) next

/-- A walk along regions that do not overlap visits no more than these. -/
def regionFuel : Nat := a.length / 8 + 1

def push (layout : FrameShape) : Except Refusal (FrameStack × FrameReservation) := do
  let byteLen ← demandSome (align layout.byteLen 8) (.fault .invalidStoragePlan)
  if byteLen = 0 then return (a, ⟨0, 0⟩)
  let (a, base) ← a.takeRegion byteLen a.regionFuel none a.freeHead
  demand (base + byteLen < 2 ^ 32 && base + byteLen ≤ a.length) (.fault .invalidStoragePlan)
  return ({ a with bytes := fun i => if base ≤ i ∧ i < base + byteLen then 0 else a.bytes i },
    ⟨base, byteLen⟩)

/-- The last region before the frame and the first one behind it. -/
def locate (frame : FrameReservation) :
    Nat → Option Nat → Option Nat → Except Refusal (Option Nat × Option Nat)
  | 0, _, _ => .error .endless
  | _ + 1, previous, none => .ok (previous, none)
  | fuel + 1, previous, some region => do
    let (following, regionLen) ← a.readFree region
    demand (region + regionLen < 2 ^ 32) (.fault .corruptLifecycle)
    if frame.base + frame.byteLen ≤ region then return (previous, some region)
    else if frame.base < region + regionLen then .error (.fault .corruptLifecycle)
    else locate frame fuel (some region) following

variable (frame : FrameReservation)

/-- The region behind the frame, when the two touch, becomes part of it. -/
def joinNext (next : Option Nat) : Except Refusal (Nat × Option Nat) :=
  match next with
  | none => .ok (frame.byteLen, none)
  | some region =>
    if frame.base + frame.byteLen = region then do
      let (following, regionLen) ← a.readFree region
      demand (frame.byteLen + regionLen < 2 ^ 32) (.fault .corruptLifecycle)
      return (frame.byteLen + regionLen, following)
    else .ok (frame.byteLen, some region)

def release : Except Refusal FrameStack :=
  if frame.byteLen = 0 then .ok a
  else do
    demand (frame.base + frame.byteLen < 2 ^ 32 && frame.base + frame.byteLen ≤ a.length)
      (.fault .corruptLifecycle)
    demand (frame.base % 8 == 0 && 8 ≤ frame.byteLen && frame.byteLen % 8 == 0)
      (.fault .corruptLifecycle)
    let (previous, next) ← a.locate frame a.regionFuel none a.freeHead
    let (freeLen, next) ← a.joinNext frame next
    match previous with
    | some region =>
      let (_, regionLen) ← a.readFree region
      demand (region + regionLen < 2 ^ 32) (.fault .corruptLifecycle)
      if region + regionLen = frame.base then
        demand (regionLen + freeLen < 2 ^ 32) (.fault .corruptLifecycle)
        a.writeFree region next (regionLen + freeLen)
      else
        let a ← a.writeFree region (some frame.base) regionLen
        a.writeFree frame.base next freeLen
    | none => FrameStack.writeFree { a with freeHead := some frame.base } frame.base next freeLen

def pop : Except Refusal FrameStack := a.release frame

/-- Store the bytes of one component of a frame. -/
def storeComponent (base : Nat) (c : ComponentLayout) (value : Nat) : Except VmFault FrameStack := do
  let start ← a.componentRange base c
  return { a with bytes := writeLE a.bytes start c.atom.byteSize value }

end FrameStack

end Compukter.Image
