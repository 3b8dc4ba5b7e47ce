/-
Resolving types, fields, literals and constants at admission.

Admission has its own searches: a type reference is resolved like in the verifier except that the index
an export names is not checked again, and the subtypes of a type are all collected once
(`assignableTypes`).

A loop of the source that ends for another reason than its list has fuel here, and `diverges` when it runs
out.  The overflow checks of the sums of table lengths are left out, as are failures to get memory.
-/
import Compukter.Verify.Types
import Compukter.Image.Profile

namespace Compukter.Image

open Fallible

/-! ## References to types -/

structure ResolvedValueType where
  kind : Nat
  nullable : Bool
  nominal : Option TypeKey
  deriving DecidableEq

variable (artifact : DecodedArtifact)

/-- A local type, or the exported type an import names. -/
def resolveType (moduleId : Nat) (reference : TypeId) : Option TypeKey :=
  if reference = absentId then none
  else do
    let m ← artifact.modules[moduleId]?
    if reference &&& importBit = 0 then
      if reference < m.types.length then some ⟨moduleId, reference⟩ else none
    else
      let found ← m.imports[reference &&& 0x7fffffff]?
      if found.kind ≠ 0 then none
      else
        let target ← artifact.modules[found.targetModule]?
        let name ← m.strings[found.targetName]?
        let named ← DecodedArtifact.exportNamed target 0 name
        some ⟨found.targetModule, named.localSymbol⟩

def resolveValueType (moduleId : Nat) (value : ValueType) :
    Admits ResolvedValueType := do
  let nullable := value.flags &&& 1 != 0
  if value.kind = 7 ∨ value.kind = 8 then
    let nominal ← demandSome (resolveType artifact moduleId value.nominalType) .invalidEntry
    return ⟨value.kind, nullable, some nominal⟩
  else return ⟨value.kind, nullable, none⟩

def typeAt (key : TypeKey) : Option NominalType := do
  (← artifact.modules[key.module]?).types[key.ty]?

/-! ## Global indices -/

/-- The sums of the lengths before each module, and of all of them. -/
def offsetsFrom : Nat → List Nat → List Nat
  | start, [] => [start]
  | start, length :: rest => start :: offsetsFrom (start + length) rest

def offsets (lengths : List Nat) : List Nat := offsetsFrom 0 lengths

/-- The tables of an artifact, numbered through. -/
structure Offsets where
  (functions blocks constants types fields literals : List Nat)
  deriving DecidableEq

def Offsets.of : Offsets where
  functions := offsets (artifact.modules.map (·.functions.length))
  blocks := offsets (artifact.modules.map (·.blocks.length))
  constants := offsets (artifact.modules.map (·.constants.length))
  types := offsets (artifact.modules.map (·.types.length))
  fields := offsets (artifact.modules.map (·.fields.length))
  literals := offsets (artifact.modules.map (·.utf16Literals.length))

variable (offsets : List Nat)

def total : Admits Nat := demandSome offsets.getLast? .invalidEntry

/-- An index into the offsets of the artifact's own modules. -/
def offsetAt (moduleId : Nat) : Admits Nat := demandSome offsets[moduleId]? .panics

/-- Only an index below the end of its own module. -/
def checkedGlobalIndex (key : TypeKey) : Option Nat := do
  let start ← offsets[key.module]?
  let stop ← offsets[key.module + 1]?
  if start + key.ty < stop then some (start + key.ty) else none

def globalIndex (key : TypeKey) : Admits Nat :=
  demandSome (checkedGlobalIndex offsets key) .invalidEntry

def admitU32 (n : Nat) : Admits Nat := demandSome (checkedU32 n) .storagePlanOverflow

/-- The keys of the modules from `moduleId` on, over the windows of the offsets. -/
def typeKeysFrom : Nat → List Nat → Admits (List TypeKey)
  | moduleId, start :: stop :: rest => do
    demand (start ≤ stop) .invalidEntry
    let module ← admitU32 moduleId
    let keys ← (List.range (stop - start)).mapM fun ty => do return ⟨module, ← admitU32 ty⟩
    return keys ++ (← typeKeysFrom (moduleId + 1) (stop :: rest))
  | _, _ => .ok []

/-- The keys of all types, in the order of their indices. -/
def resolveTypeKeys : Admits (List TypeKey) := do
  demand (offsets.head? == some 0) .invalidEntry
  typeKeysFrom 0 offsets

/-- The types of all modules, as the loops over modules and their types take them. -/
def moduleTypes : List TypeKey :=
  artifact.modules.zipIdx.flatMap fun (m, moduleId) => (List.range m.types.length).map (⟨moduleId, ·⟩)

/-! ## Layouts of types -/

structure FieldSpec where
  field : Nat
  width : ValueWidth
  deriving DecidableEq

structure PlacedField where
  field : Nat
  width : ValueWidth
  offset : Nat
  deriving DecidableEq

/-- An object layout with its size and the places of its fields. -/
structure ObjectShape extends ObjectLayout where
  (payloadBytes blockBytes : Nat)
  fields : List PlacedField
  deriving DecidableEq

inductive TypeLayout
  | object (layout : ObjectShape)
  | array (element : ValueWidth)
  | nonHeap
  deriving DecidableEq

def valueWidth (value : ValueType) : Admits ValueWidth :=
  match value.kind with
  | 1 => .ok .i32
  | 2 => .ok .i64
  | 3 => .ok .f32
  | 4 => .ok .f64
  | 5 => .ok .bool
  | 6 => .ok .char
  | 7 => .ok .ref
  | _ => .error .invalidEntry

def blockBytes (payloadBytes : Nat) (format : HeaderFormat) : Admits Nat := do
  let unaligned ← admitU32 (format.bytes + payloadBytes)
  let aligned ← demandSome (align unaligned blockAlignment) .storagePlanOverflow
  return max aligned minimumBlockBytes

/-- Each field at the next multiple of its width. -/
def placeFields : List FieldSpec → Nat → Admits (List PlacedField × Nat)
  | [], offset => .ok ([], offset)
  | field :: rest, offset => do
    let start ← demandSome (align offset field.width.bytes) .storagePlanOverflow
    let next ← admitU32 (start + field.width.bytes)
    let (fields, offset) ← placeFields rest next
    return (⟨field.field, field.width, start⟩ :: fields, offset)

/-- The fields of a superclass keep their places; then come the widest fields, in declaration order. -/
def objectLayout (superclass : Option ObjectShape) (declared : List FieldSpec) (format : HeaderFormat) :
    Admits ObjectShape := do
  let ordered := [8, 4, 2, 1].flatMap fun bytes => declared.filter (·.width.bytes == bytes)
  let (placed, offset) ← placeFields ordered ((superclass.map (·.payloadBytes)).getD 0)
  let references := (placed.filter (·.width == .ref)).map (·.offset)
  return {
    referenceOffsets := (superclass.map (·.referenceOffsets)).getD [] ++ references
    payloadBytes := offset
    blockBytes := ← blockBytes offset format
    fields := (superclass.map (·.fields)).getD [] ++ placed }

/-- The instance fields that a class declares. -/
def fieldSpecs (fieldOffset start : Nat) : List Field → Nat → Admits (List FieldSpec)
  | [], _ => .ok []
  | field :: rest, relative => do
    let specs ← if field.flags &&& 2 != 0 then pure [] else do
      let index ← admitU32 (fieldOffset + (start + relative))
      pure [⟨index, ← valueWidth field.valueType⟩]
    return specs ++ (← fieldSpecs fieldOffset start rest (relative + 1))

/-- The layouts found so far, and the types whose layout is being derived. -/
structure LayoutState where
  layouts : List (Option TypeLayout)
  visiting : List Bool
  deriving DecidableEq

def LayoutState.layoutAt (s : LayoutState) (index : Nat) : Option TypeLayout := (s.layouts[index]?).join

def arrayWidth (t : ArrayType) : Admits ValueWidth :=
  match t.storage with
  | 1 => .ok .i8
  | 2 => .ok .i16
  | 3 => .ok .u8
  | 4 => .ok .u16
  | _ => valueWidth t.element

/-- A superclass comes first. -/
def deriveTypeLayout (artifact : DecodedArtifact) (o : Offsets) (format : HeaderFormat) :
    Nat → TypeKey → LayoutState → Admits LayoutState
  | 0, _, _ => .error .diverges
  | fuel + 1, key, s => do
    let index ← globalIndex o.types key
    if (s.layoutAt index).isSome then return s
    demand (s.visiting[index]? == some false) .invalidEntry
    let s := { s with visiting := s.visiting.set index true }
    let m ← demandSome artifact.modules[key.module]? .invalidEntry
    let nominal ← demandSome m.types[key.ty]? .invalidEntry
    let (layout, s) ← match nominal with
      | .classType t => do
        let (inherited, s) ← match resolveType artifact key.module t.superType with
          | some superclass => do
            let s ← deriveTypeLayout artifact o format fuel superclass s
            match s.layoutAt (← globalIndex o.types superclass) with
            | some (.object layout) => pure (some layout, s)
            | _ => throw .invalidEntry
          | none => pure (none, s)
        demand (t.fieldStart + t.fieldCount ≤ m.fields.length) .invalidEntry
        let declared := (m.fields.drop t.fieldStart).take t.fieldCount
        let specs ← fieldSpecs (← offsetAt o.fields key.module) t.fieldStart declared 0
        pure (.object (← objectLayout inherited specs format), s)
      | .arrayType t => do pure (.array (← arrayWidth t), s)
      | _ => pure (.nonHeap, s)
    return ⟨s.layouts.set index (some layout), s.visiting.set index false⟩

def deriveTypeLayouts (o : Offsets) (format : HeaderFormat) :
    Admits (List TypeLayout) := do
  let count ← total o.types
  let s ← (moduleTypes artifact).foldlM
    (fun s key => deriveTypeLayout artifact o format (count + 1) key s)
    ⟨List.replicate count none, List.replicate count false⟩
  s.layouts.mapM fun layout => demandSome layout .invalidEntry

/-! ## Assignability -/

/-- The direct supertypes, in the order in which they are pushed; an interface has to resolve. -/
def supertypes (key : TypeKey) : Admits (List TypeKey) := do
  let resolve := resolveType artifact key.module
  match ← demandSome (typeAt artifact key) .panics with
  | .classType t =>
    return (resolve t.superType).toList ++
      (← t.interfaces.mapM fun interface => demandSome (resolve interface) .invalidEntry)
  | .interfaceType t =>
    return (resolve t.superType).toList ++
      (← t.interfaces.mapM fun interface => demandSome (resolve interface) .invalidEntry)
  | .arrayType t => return ((t.superType).bind resolve).toList
  | _ => return []

/-- Push what is neither found nor pending; the head of the list is the top. -/
def pushPending (result : List TypeKey) : List TypeKey → List TypeKey → List TypeKey
  | [], pending => pending
  | key :: rest, pending =>
    if result.contains key || pending.contains key then pushPending result rest pending
    else pushPending result rest (key :: pending)

/-- The worklist of a search upwards. -/
def collectAssignable (artifact : DecodedArtifact) :
    Nat → List TypeKey → List TypeKey → Admits (List TypeKey)
  | 0, _, _ => .error .diverges
  | _ + 1, [], result => .ok result
  | fuel + 1, current :: pending, result =>
    if result.contains current then collectAssignable artifact fuel pending result
    else do
      let result := result ++ [current]
      collectAssignable artifact fuel (pushPending result (← supertypes artifact current) pending) result

/-- Every type is pushed at most once. -/
def assignableTypes (actual : TypeKey) : Admits (List TypeKey) :=
  collectAssignable artifact ((moduleTypes artifact).length + 2) [actual] []

/-! ## Fields -/

structure ResolvedField where
  owner : TypeKey
  valueType : ResolvedValueType
  (offset staticSlot : Option Nat)
  deriving DecidableEq

/-- Its place in the layout of the owner. -/
def fieldOffset (o : Offsets) (layouts : List TypeLayout) (owner : TypeKey) (globalField : Nat) :
    Admits Nat := do
  match layouts[← globalIndex o.types owner]? with
  | some (.object layout) =>
    demandSome ((layout.fields.find? (·.field == globalField)).map (·.offset)) .invalidEntry
  | _ => throw .invalidEntry

/-- Static fields take slots, the others places. -/
def resolveModuleFields (artifact : DecodedArtifact) (o : Offsets) (layouts : List TypeLayout)
    (moduleId : Nat) : List Field → Nat → Nat → Admits (List ResolvedField × Nat)
  | [], _, slots => .ok ([], slots)
  | field :: rest, localField, slots => do
    let owner ← demandSome (resolveType artifact moduleId field.owner) .invalidEntry
    let isStatic := field.flags &&& 2 != 0
    let slots' ← if isStatic then admitU32 (slots + 1) else pure slots
    let offset ← if isStatic then pure none else do
      pure (some (← fieldOffset o layouts owner ((← offsetAt o.fields moduleId) + localField)))
    let valueType ← resolveValueType artifact moduleId field.valueType
    let (fields, slots') ← resolveModuleFields artifact o layouts moduleId rest (localField + 1) slots'
    return (⟨owner, valueType, offset, if isStatic then some slots else none⟩ :: fields, slots')

def resolveFieldsFrom (artifact : DecodedArtifact) (o : Offsets) (layouts : List TypeLayout) :
    List DecodedModule → Nat → Nat → Admits (List ResolvedField)
  | [], _, _ => .ok []
  | m :: rest, moduleId, slots => do
    let (fields, slots) ← resolveModuleFields artifact o layouts moduleId m.fields 0 slots
    return fields ++ (← resolveFieldsFrom artifact o layouts rest (moduleId + 1) slots)

def resolveFields (o : Offsets) (layouts : List TypeLayout) : Admits (List ResolvedField) :=
  resolveFieldsFrom artifact o layouts artifact.modules 0 0

def physicalAtom (value : ResolvedValueType) : Admits PhysicalAtom :=
  match value.kind with
  | 1 | 5 | 6 => .ok .i32
  | 2 => .ok .i64
  | 3 => .ok .f32
  | 4 => .ok .f64
  | 7 => .ok .ref32
  | _ => .error .invalidEntry

/-! ## The standard string type and the runtime's exceptions -/

/-- Admission looks for the same exports as the verifier. -/
def resolveStandardStringType : Admits (Option TypeKey) :=
  match artifact.stringCandidates with
  | [] => .ok none
  | [(module, ty)] => .ok (some ⟨module, ty⟩)
  | _ => .error .invalidEntry

/-- The tag of a class in the upper bits of its flags gives it a role; the last one wins. -/
def runtimeExceptionTypes : Admits (List (Option TypeKey)) :=
  (moduleTypes artifact).foldlM (fun roles key =>
    match typeAt artifact key with
    | some (.classType t) =>
      let tag := t.flags >>> 3
      if tag = 0 then .ok roles
      else if tag ≤ 8 then .ok (roles.set (tag - 1) (some key))
      else .error .panics
    | _ => .ok roles) (List.replicate 8 none)

/-! ## Literals and constants -/

/-- A string constant refers to its literal by the id that is left after deduplication. -/
def resolveConstant (o : Offsets) (ids : List Nat) (moduleId : Nat) : Constant → Admits RuntimeValue
  | .i32 value => .ok (.i32 value)
  | .i64 value => .ok (.i64 value)
  | .f32 bits => .ok (.f32 bits)
  | .f64 bits => .ok (.f64 bits)
  | .bool value => .ok (.bool value)
  | .char unit => .ok (.char unit)
  | .null => .ok .null
  | .string literal => do
    let offset ← demandSome o.literals[moduleId]? .invalidEntry
    let canonical ← demandSome ids[offset + literal]? .invalidEntry
    let reference ← demandSome (Ref32.new .image canonical) .storagePlanOverflow
    return .reference reference

end Compukter.Image
