/-
The checkpoint codec: what `Checkpoint` writes and reads for every type that is built from its instances.

A `Shape` is a Rust type as the codec sees it and a `Value` is a value of one.  Named types, which the two
macros give their instances to, are looked up in a table, because they may contain themselves.  A signed integer
is written as its bit pattern, a newtype as its content, `Box<[T]>` and `VecDeque<T>` as `Vec<T>`, and
`Box<str>` as `String`.

The sizes of types and the check of UTF-8 are parameters.  `usize` has 64 bits, as on the targets of the
runtime.  Failing to get memory is left out.
-/
import Compukter.Lib.LittleEndian

namespace Compukter.Checkpoint

inductive CheckpointError
  | limit | allocation | truncated | invalidState | trailingBytes | incompatible | integrity
  /-- Not of the source: a model of the reader without enough fuel. -/
  | unfinished
  deriving DecidableEq

/-! ## Types and values -/

inductive Value
  | int (n : Nat)
  | bool (b : Bool)
  | unit
  | pair (first rest : Value)
  | none
  | some (v : Value)
  /-- The values of a vector or an array in a row. -/
  | nil
  | cons (v rest : Value)
  | vec (elements : Value)
  | array (elements : Value)
  | box (v : Value)
  | string (bytes : Value)
  | arc (bytes : List UInt8)
  | struct (fields : Value)
  | variant (index : Nat) (fields : Value)
  deriving DecidableEq

def Value.count : Value → Nat
  | .cons _ rest => rest.count + 1
  | _ => 0

inductive Shape
  /-- An integer of so many bytes. -/
  | int (bytes : Nat)
  | usize | bool
  /-- Tuples and the fields of a struct or variant are pairs, ended by `unit`. -/
  | unit
  | pair (first rest : Shape)
  | option (s : Shape)
  /-- Not a type of its own: values in a row. -/
  | run (count : Nat) (s : Shape)
  | vec (s : Shape)
  | array (count : Nat) (s : Shape)
  | box (s : Shape)
  | string
  /-- `Arc<[u8]>`. -/
  | arc
  /-- A field that is not written: reading gives the one value that its type has. -/
  | default (v : Value)
  | named (name : Nat)
  deriving DecidableEq

/-- The variants of an enumeration, with their tags. -/
structure Variants where
  list : List (Nat × Shape)
  distinct : (list.map Prod.fst).Nodup
  small : ∀ tag ∈ list.map Prod.fst, tag < 256

inductive Definition
  | struct (fields : Shape)
  | enum (variants : Variants)

/-- The types of a program, with what the compiler and the standard library know about them. -/
structure Types where
  define : Nat → Definition
  sizeOf : Shape → Nat
  isUtf8 : Value → Bool

variable (T : Types)

/-- What `allocate` charges for so many values. -/
def Types.chargeOf (length : Nat) (s : Shape) : Nat := length * max (T.sizeOf s) 1

/-! ## Writing -/

structure Writer where
  bytes : List UInt8
  maximum : Nat
  deriving DecidableEq

def Writer.new (maximum : Nat) : Writer := ⟨[], maximum⟩

def Writer.put (w : Writer) (bytes : List UInt8) : Except CheckpointError Writer :=
  if w.maximum < w.bytes.length + bytes.length then .error .limit
  else .ok { w with bytes := w.bytes ++ bytes }

def Writer.finish (w : Writer) : List UInt8 := w.bytes

/-- `invalidState` stands for a value that is not of the type. -/
def Types.write (T : Types) : Shape → Value → Writer → Except CheckpointError Writer
  | .int bytes, .int n, w => if n < 256 ^ bytes then w.put (bytesLE bytes n) else .error .invalidState
  | .usize, .int n, w => if n < 256 ^ 8 then w.put (bytesLE 8 n) else .error .invalidState
  | .bool, .bool b, w => w.put (bytesLE 1 b.toNat)
  | .unit, .unit, w => .ok w
  | .pair a b, .pair x y, w => do
    let w ← T.write a x w
    T.write b y w
  | .option _, .none, w => w.put (bytesLE 1 0)
  | .option s, .some v, w => do
    let w ← w.put (bytesLE 1 1)
    T.write s v w
  | .run 0 _, .nil, w => .ok w
  | .run (count + 1) s, .cons v rest, w => do
    let w ← T.write s v w
    T.write (.run count s) rest w
  | .vec s, .vec elements, w =>
    if elements.count < 256 ^ 8 then do
      let w ← w.put (bytesLE 8 elements.count)
      T.write (.run elements.count s) elements w
    else .error .invalidState
  | .array count s, .array elements, w => T.write (.run count s) elements w
  | .box s, .box v, w => T.write s v w
  | .string, .string bytes, w =>
    if bytes.count < 256 ^ 8 ∧ T.isUtf8 bytes then do
      let w ← w.put (bytesLE 8 bytes.count)
      T.write (.run bytes.count (.int 1)) bytes w
    else .error .invalidState
  | .arc, .arc bytes, w =>
    if bytes.length < 256 ^ 8 then do
      let w ← w.put (bytesLE 8 bytes.length)
      w.put bytes
    else .error .invalidState
  | .default v, v', w => if v' = v then .ok w else .error .invalidState
  | .named name, .struct fields, w =>
    match T.define name with
    | .struct s => T.write s fields w
    | .enum _ => .error .invalidState
  | .named name, .variant index fields, w =>
    match T.define name with
    | .struct _ => .error .invalidState
    | .enum variants =>
      match variants.list[index]? with
      | none => .error .invalidState
      | some (tag, s) => do
        let w ← w.put (bytesLE 1 tag)
        T.write s fields w
  | _, _, _ => .error .invalidState

/-! ## Reading -/

structure Reader where
  bytes : List UInt8
  (allocationLeft depth : Nat)
  /-- Not of the source: the bytes of storage for elements that were requested so far. -/
  requested : Nat
  deriving DecidableEq

def Reader.new (bytes : List UInt8) (maximumBytes maximumAllocation : Nat) : Except CheckpointError Reader :=
  if maximumBytes < bytes.length then .error .limit else .ok ⟨bytes, maximumAllocation, 0, 0⟩

def Reader.finish (r : Reader) : Except CheckpointError Unit :=
  if r.bytes.isEmpty then .ok () else .error .trailingBytes

/-- A reader is changed also by an attempt that fails. -/
def Read (α : Type) := Reader → Except CheckpointError α × Reader

instance : Monad Read where
  pure a := fun r => (.ok a, r)
  bind x f := fun r =>
    match x r with
    | (.ok a, r) => f a r
    | (.error e, r) => (.error e, r)

def fail {α : Type} (e : CheckpointError) : Read α := fun r => (.error e, r)

def take (length : Nat) : Read (List UInt8) := fun r =>
  if length ≤ r.bytes.length then (.ok (r.bytes.take length), { r with bytes := r.bytes.drop length })
  else (.error .truncated, r)

/-- A product that overflows is above every budget. -/
def allocate (charge : Nat) : Read Unit := fun r =>
  if charge ≤ r.allocationLeft then (.ok (), { r with allocationLeft := r.allocationLeft - charge })
  else (.error .limit, r)

/-- Storage is requested from the system. -/
def reserve (bytes : Nat) : Read Unit := fun r => (.ok (), { r with requested := r.requested + bytes })

def nested {α : Type} (read : Read α) : Read α := fun r =>
  if r.depth = 64 then (.error .limit, r)
  else
    match read { r with depth := r.depth + 1 } with
    | (result, r) => (result, { r with depth := r.depth - 1 })

def readInt (bytes : Nat) : Read Nat := do
  let bytes ← take bytes
  pure (ofBytesLE bytes)

/-- `u64::MAX` stands for `usize::MAX`, which is the same number. -/
def readUsize : Read Nat := readInt 8

def readBool : Read Bool := do
  match ← readInt 1 with
  | 0 => pure false
  | 1 => pure true
  | _ => fail .invalidState

def readRun (read : Read Value) : Nat → Read Value
  | 0 => pure .nil
  | count + 1 => do
    let v ← read
    let rest ← readRun read count
    pure (.cons v rest)

/-- `Vec::<T>::read`, given the size of a value and how to read one. -/
def readVec (charge size : Nat → Nat) (read : Read Value) : Read Value :=
  nested do
    let length ← readUsize
    allocate (charge length)
    reserve (size length)
    readRun read length

def Types.readVecOf (s : Shape) (read : Read Value) : Read Value :=
  readVec (fun length => T.chargeOf length s) (fun length => length * T.sizeOf s) read

/-- Reading a type, given how to read the named ones. -/
def Types.readAt (T : Types) (named : Nat → Read Value) : Shape → Read Value
  | .int bytes => do pure (.int (← readInt bytes))
  | .usize => do pure (.int (← readUsize))
  | .bool => do pure (.bool (← readBool))
  | .unit => pure .unit
  | .pair a b => do
    let x ← T.readAt named a
    let y ← T.readAt named b
    pure (.pair x y)
  | .option s =>
    nested do
      if ← readBool then
        let v ← T.readAt named s
        pure (.some v)
      else pure .none
  | .run count s => readRun (T.readAt named s) count
  | .vec s => do
    let elements ← T.readVecOf s (T.readAt named s)
    pure (.vec elements)
  | .array count s => do
    allocate (T.chargeOf count s)
    reserve (count * T.sizeOf s)
    let elements ← readRun (T.readAt named s) count
    pure (.array elements)
  | .box s => do
    allocate (T.chargeOf 1 s)
    nested do
      let v ← T.readAt named s
      reserve (T.sizeOf s)
      pure (.box v)
  | .string => do
    let bytes ← readVec (fun length => length * 1) (fun length => length * 1)
      (do pure (.int (← readInt 1)))
    if T.isUtf8 bytes then pure (.string bytes) else fail .invalidState
  | .arc => do
    let length ← readUsize
    allocate (length * 1)
    allocate (2 * 8)
    let bytes ← take length
    reserve (length + 2 * 8)
    pure (.arc bytes)
  | .default v => pure v
  | .named name => named name

/-- Reading a named type; a type inside it is read with less fuel. -/
def Types.readNamed (T : Types) : Nat → Nat → Read Value
  | 0, _ => fail .unfinished
  | fuel + 1, name =>
    match T.define name with
    | .struct s => do
      let fields ← T.readAt (T.readNamed fuel) s
      pure (.struct fields)
    | .enum variants =>
      nested do
        let tag ← readInt 1
        match variants.list.findIdx? (·.1 == tag) with
        | none => fail .invalidState
        | some index =>
          match variants.list[index]? with
          | none => fail .invalidState
          | some (_, s) =>
            let fields ← T.readAt (T.readNamed fuel) s
            pure (.variant index fields)

def Types.read (fuel : Nat) (s : Shape) : Read Value := T.readAt (T.readNamed fuel) s

/-! ## Limits -/

/-- How deep a value nests for the reader. -/
def Types.depth (T : Types) : Shape → Value → Nat
  | .pair a b, .pair x y => max (T.depth a x) (T.depth b y)
  | .option _, .none => 1
  | .option s, .some v => 1 + T.depth s v
  | .run (count + 1) s, .cons v rest => max (T.depth s v) (T.depth (.run count s) rest)
  | .vec s, .vec elements => 1 + T.depth (.run elements.count s) elements
  | .array count s, .array elements => T.depth (.run count s) elements
  | .box s, .box v => 1 + T.depth s v
  | .string, .string _ => 1
  | .named name, .struct fields =>
    match T.define name with
    | .struct s => T.depth s fields
    | .enum _ => 0
  | .named name, .variant index fields =>
    match T.define name with
    | .struct _ => 0
    | .enum variants =>
      match variants.list[index]? with
      | none => 0
      | some (_, s) => 1 + T.depth s fields
  | _, _ => 0

/-- What the reader takes from its budget for a value. -/
def Types.charge (T : Types) : Shape → Value → Nat
  | .pair a b, .pair x y => T.charge a x + T.charge b y
  | .option s, .some v => T.charge s v
  | .run (count + 1) s, .cons v rest => T.charge s v + T.charge (.run count s) rest
  | .vec s, .vec elements => T.chargeOf elements.count s + T.charge (.run elements.count s) elements
  | .array count s, .array elements => T.chargeOf count s + T.charge (.run count s) elements
  | .box s, .box v => T.chargeOf 1 s + T.charge s v
  | .string, .string bytes => bytes.count
  | .arc, .arc bytes => bytes.length + 16
  | .named name, .struct fields =>
    match T.define name with
    | .struct s => T.charge s fields
    | .enum _ => 0
  | .named name, .variant index fields =>
    match T.define name with
    | .struct _ => 0
    | .enum variants =>
      match variants.list[index]? with
      | none => 0
      | some (_, s) => T.charge s fields
  | _, _ => 0

end Compukter.Checkpoint
