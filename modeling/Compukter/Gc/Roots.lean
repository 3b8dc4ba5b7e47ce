/-
What the collector reads besides the heap: values, layouts, frames and the other roots.

A collection runs against a `RootSet` (references that the runtime, failed tasks, the host, static
fields and frames hold) and against the parts of the execution image it consults, `ImageView`:
the static fields, the safepoint map of a frame position and the layout of a type.
-/
import Compukter.Heap.Operations
import Compukter.Artifact.Model

namespace Compukter

open Bytes

/-! ## Values -/

inductive RuntimeValue where
  | i32 (value : Int) | i64 (value : Int) | f32 (bits : Nat) | f64 (bits : Nat)
  | bool (value : Bool) | char (value : Nat) | null | reference (reference : Ref32)
  deriving DecidableEq

inductive ValueWidth where
  | i8 | i16 | u8 | u16 | bool | char | i32 | f32 | i64 | f64 | ref
  deriving DecidableEq

def ValueWidth.bytes : ValueWidth → Nat
  | .bool | .i8 | .u8 => 1
  | .char | .i16 | .u16 => 2
  | .i32 | .f32 | .ref => 4
  | .i64 | .f64 => 8

/-- `map_or(Null, Reference)`. -/
def RuntimeValue.ofReference : Option Ref32 → RuntimeValue
  | none => .null
  | some r => .reference r

/-- Two's complement. -/
def signed (width value : Nat) : Int :=
  if value < 2 ^ (width - 1) then value else (value : Int) - 2 ^ width

/-- Read a payload location as a value of the given width. -/
def loadValue (h : Heap) (reference : Ref32) (offset : Nat) (width : ValueWidth) :
    Except VmFault RuntimeValue := do
  let bytes ← h.readPayload reference offset width.bytes
  let value := ofBytesLE (bytes.take width.bytes)
  return match width with
  | .i8 => .i32 (signed 8 value)
  | .u8 => .i32 value
  | .i16 => .i32 (signed 16 value)
  | .u16 => .i32 value
  | .bool => .bool (decide (value ≠ 0))
  | .char => .char value
  | .i32 => .i32 (signed 32 value)
  | .f32 => .f32 value
  | .i64 => .i64 (signed 64 value)
  | .f64 => .f64 value
  | .ref => .ofReference (Ref32.fromBits value)

/-! ## Layouts -/

structure TypeKey where
  (module ty : Nat)
  deriving DecidableEq

/-- The part of an object layout that the collector uses: where the references are. -/
structure ObjectLayout where
  referenceOffsets : List Nat
  deriving DecidableEq

inductive RuntimeTypeLayout where
  | object (layout : ObjectLayout)
  | array (element : ValueWidth)
  | nonHeap
  deriving DecidableEq

/-! ## Frames and statics -/

def PhysicalAtom.byteSize : PhysicalAtom → Nat
  | .i32 | .f32 | .ref32 => 4
  | .i64 | .f64 => 8

structure ComponentLayout where
  offset : Nat
  atom : PhysicalAtom
  deriving DecidableEq

structure FrameLayout where
  values : List (List ComponentLayout)
  deriving DecidableEq

structure FrameReservation where
  (base byteLen : Nat)
  deriving DecidableEq

structure FrameArena where
  bytes : Memory
  length : Nat

namespace FrameArena

/-- A component of a value, when it has the expected atom. -/
def component (layout : FrameLayout) (value component : Nat) (atom : PhysicalAtom) : Except VmFault ComponentLayout :=
  match (layout.values[value]?).bind (·[component]?) with
  | some c => if c.atom = atom then .ok c else .error .invalidValueType
  | none => .error .invalidValueType

/-- The start of a component's bytes. -/
def componentRange (a : FrameArena) (base : Nat) (c : ComponentLayout) : Except VmFault Nat :=
  if base + c.offset < 2 ^ 32 ∧ base + c.offset + c.atom.byteSize ≤ a.length then
    .ok (base + c.offset)
  else .error .invalidStoragePlan

def readRef32 (a : FrameArena) (base : Nat) (layout : FrameLayout) (value index : Nat) :
    Except VmFault (Option Ref32) := do
  let c ← component layout value index .ref32
  return Ref32.fromBits (readLE a.bytes (← a.componentRange base c) 4)

def readRef32Offset (a : FrameArena) (frame : FrameReservation) (offset : Nat) : Except VmFault (Option Ref32) :=
  if offset + 4 < 2 ^ 32 ∧ offset + 4 ≤ frame.byteLen ∧ frame.base + offset < 2 ^ 32 ∧
      frame.base + offset + 4 ≤ a.length then
    .ok (Ref32.fromBits (readLE a.bytes (frame.base + offset) 4))
  else .error .invalidRootMap

end FrameArena

structure StaticArena where
  arena : FrameArena
  layout : FrameLayout
  reservation : FrameReservation

def StaticArena.reference (a : StaticArena) (slot : Nat) : Except VmFault (Option Ref32) :=
  a.arena.readRef32 a.reservation.base a.layout slot 0

/-- The position and the storage of an activation. -/
structure Frame where
  (function base byteLen block instruction : Nat)
  deriving DecidableEq

/-- The function index of an empty frame slot. -/
def usizeMax : Nat := 2 ^ 64 - 1

/-! ## Roots and image -/

structure RootSet where
  statics : StaticArena
  (frames savedFrames : List Frame)
  taskFailures : List (Option Ref32)
  frameArena : FrameArena
  frameDepth : Nat
  (runtimeRoots external : List (Option Ref32))

/-- A resolved field, as far as the collector looks at it. -/
structure FieldSlot where
  kind : Nat
  staticSlot : Option Nat
  deriving DecidableEq

/-- The parts of the execution image that a collection consults. -/
structure ImageView where
  fields : List FieldSlot
  safepointMap : Nat → Nat → Nat → Option (List Nat)
  typeKey : Nat → Option TypeKey
  typeLayout : TypeKey → Option RuntimeTypeLayout

end Compukter
