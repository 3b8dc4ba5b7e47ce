/-
Resolving instructions at admission, and the check of capability calls against the host's schemas.

Most instructions are taken over as they are (`plain`); the others get their references resolved to
global indices, types or fields.  `yield` and `sleep` are not admitted.

A host record is matched with a class or an inline value; the search for nested records is not bounded by
the source other than by the schema itself, which becomes smaller at each level.
-/
import Compukter.Image.Functions

namespace Compukter.Image

open Fallible

/-! ## Host schemas -/

inductive HostValueType
  | unit | i32 | i64 | f32 | f64 | bool | char | string | record | byteArray
  | charArrayRange (start stop : Nat)
  deriving DecidableEq

/-- A record schema; the fields are in `fields`, each with the schema of a nested record. -/
inductive HostRecordSchema
  | schema (typeName : List UInt8) (fields : List (List UInt8 × HostValueType × Option HostRecordSchema))

structure ResolvedOperation where
  arguments : List HostValueType
  result : HostValueType
  asynchronous : Bool
  resultRecord : Option HostRecordSchema

structure ResolvedCapability where
  operations : List ResolvedOperation

/-! ## Records -/

inductive RecordLayout
  | layout (ty : TypeKey) (inline : Bool) (fields : List (Nat × ValueWidth × Option RecordLayout × List Nat))

/-- The tables that instructions are resolved from. -/
structure Resolution where
  artifact : DecodedArtifact
  /-- For the comparison of signatures. -/
  fuel : Nat
  offsets : Offsets
  fields : List ResolvedField
  functions : List ResolvedFunction
  capabilities : List (Option ResolvedCapability)
  stringType : Option TypeKey
  typeLayouts : List TypeLayout

namespace Resolution

variable (r : Resolution)

def inlineSuffix : List UInt8 := ".<inline-value>".toUTF8.toList

def boxedName : List UInt8 := "<boxed-value>".toUTF8.toList

def inlineSlots (moduleId : Nat) : List ValueType → Nat → Option (List (ResolvedValueType × Nat))
  | [], _ => some []
  | component :: rest, index => do
    let nominal ← if component.kind = 7 then
        (resolveType r.artifact moduleId component.nominalType).map some
      else some none
    let slots ← inlineSlots moduleId rest (index + 1)
    some ((⟨component.kind, component.flags &&& 1 != 0, nominal⟩, index) :: slots)

/-- The slot of a declared instance field that is not nullable. -/
def fieldSlot (ty : TypeKey) (fieldStart index : Nat) (field : Field) : Option (ResolvedValueType × Nat) := do
  if field.flags &&& 2 != 0 then none
  else
    let resolved ← r.fields[(← r.offsets.fields[ty.module]?) + fieldStart + index]?
    if resolved.owner ≠ ty || resolved.valueType.nullable then none
    else some (resolved.valueType, ← resolved.offset)

def boxedSlots (m : DecodedModule) (ty : TypeKey) (fieldStart : Nat) :
    List Field → Nat → Option (List (ResolvedValueType × Nat))
  | [], _ => some []
  | field :: rest, index => do
    if m.strings[field.name]? ≠ some boxedName then none
    else
      let slot ← r.fieldSlot ty fieldStart index field
      let slots ← boxedSlots m ty fieldStart rest (index + 1)
      some (slot :: slots)

/-- The declared fields in the order of the schema. -/
def namedSlots (m : DecodedModule) (ty : TypeKey) (fieldStart : Nat) (declared : List Field) :
    List (List UInt8) → Option (List (ResolvedValueType × Nat))
  | [] => some []
  | name :: rest => do
    let index ← declared.findIdx? fun field => m.strings[field.name]? == some name
    let field ← declared[index]?
    let slot ← r.fieldSlot ty fieldStart index field
    let slots ← namedSlots m ty fieldStart declared rest
    some (slot :: slots)

/-- The slots of a type that a record can be stored in: inline, flattened, and the slots. -/
def recordSlots (ty : TypeKey) (typeName : List UInt8) (names : List (List UInt8)) :
    Option (Bool × Bool × List (ResolvedValueType × Nat)) := do
  let m ← r.artifact.modules[ty.module]?
  match ← m.types[ty.ty]? with
  | .inlineValue t =>
    if m.strings[t.name]? ≠ some (typeName ++ inlineSuffix) then none
    else some (true, true, ← r.inlineSlots ty.module t.components 0)
  | .classType t =>
    if t.genericArity ≠ 0 || !t.interfaces.isEmpty || t.initializer.isSome ||
        m.strings[t.name]? ≠ some typeName || m.fields.length < t.fieldStart + t.fieldCount then none
    else
      let declared := (m.fields.drop t.fieldStart).take t.fieldCount
      let flattened := declared.head?.any fun field => m.strings[field.name]? == some boxedName
      if flattened then
        if r.artifact.header.runtimeMinor < 20 then none
        else some (false, true, ← r.boxedSlots m ty t.fieldStart declared 0)
      else if declared.length ≠ names.length then none
      else some (false, false, ← r.namedSlots m ty t.fieldStart declared names)
  | _ => none

variable (actual : ResolvedValueType)

/-- The width of a scalar field, when the slot has its kind. -/
def scalarWidth : HostValueType → Option ValueWidth
  | .i32 => if actual.kind = 1 then some .i32 else none
  | .i64 => if actual.kind = 2 then some .i64 else none
  | .f32 => if actual.kind = 3 then some .f32 else none
  | .f64 => if actual.kind = 4 then some .f64 else none
  | .bool => if actual.kind = 5 then some .bool else none
  | .char => if actual.kind = 6 then some .char else none
  | .string => if actual.kind = 7 ∧ actual.nominal = r.stringType then some .ref else none
  | _ => none

mutual

/-- The fields of a schema matched with slots; gives what was matched and the slots that are left. -/
def walkRecord (flattened : Bool) (path : List Nat) (index : Nat) :
    List (List UInt8 × HostValueType × Option HostRecordSchema) → List (ResolvedValueType × Nat) →
    Option (List (Nat × ValueWidth × Option RecordLayout × List Nat) × List (ResolvedValueType × Nat))
  | [], slots => some ([], slots)
  | _ :: _, [] => none
  | (_, valueType, child) :: rest, (actual, offset) :: slots => do
    if actual.nullable then none
    else
      let here := path ++ [index]
      let (matched, slots) ← match valueType, child with
        | .record, some child =>
          match (if actual.kind = 7 then actual.nominal else none).bind (admitRecord · child) with
          | some record => some ([(offset, .ref, some record, here)], slots)
          | none =>
            if flattened then walkSchema true here child ((actual, offset) :: slots) else none
        | .record, none => none
        | other, _ => do
          let width ← r.scalarWidth actual other
          some ([(offset, width, none, here)], slots)
      let (later, slots) ← walkRecord flattened path (index + 1) rest slots
      some (matched ++ later, slots)

def walkSchema (flattened : Bool) (path : List Nat) :
    HostRecordSchema → List (ResolvedValueType × Nat) →
    Option (List (Nat × ValueWidth × Option RecordLayout × List Nat) × List (ResolvedValueType × Nat))
  | .schema _ fields, slots => walkRecord flattened path 0 fields slots

def admitRecord (ty : TypeKey) : HostRecordSchema → Option RecordLayout
  | .schema typeName fields => do
    let (inline, flattened, slots) ← r.recordSlots ty typeName (fields.map (·.1))
    match ← walkRecord flattened [] 0 fields slots with
    | (matched, []) => some (.layout ty inline matched)
    | _ => none

end

mutual

/-- Objects have exactly the fields of the record; inline values have no layout of their own. -/
def hasPhysicalShape : RecordLayout → Bool
  | .layout ty inline fields =>
    match checkedGlobalIndex r.offsets.types ty with
    | none => false
    | some index =>
      inline ||
        match r.typeLayouts[index]? with
        | some (.object object) => object.fields.length == fields.length && nestedShapes fields
        | _ => false

def nestedShapes : List (Nat × ValueWidth × Option RecordLayout × List Nat) → Bool
  | [] => true
  | (_, _, none, _) :: rest => nestedShapes rest
  | (_, _, some record, _) :: rest => hasPhysicalShape record && nestedShapes rest

end

/-! ## Capability calls -/

def isArrayOf (width : ValueWidth) : Bool :=
  actual.kind == 7 && !actual.nullable &&
    (((actual.nominal).bind (checkedGlobalIndex r.offsets.types)).bind (r.typeLayouts[·]?)) == some (.array width)

def hostTypeMatches : HostValueType → Bool
  | .unit | .record => false
  | .i32 => actual.kind == 1
  | .i64 => actual.kind == 2
  | .f32 => actual.kind == 3
  | .f64 => actual.kind == 4
  | .bool => actual.kind == 5
  | .char => actual.kind == 6
  | .string => actual.kind == 7 && !actual.nullable && actual.nominal == r.stringType
  | .byteArray => r.isArrayOf actual .i8
  | .charArrayRange _ _ => r.isArrayOf actual .char

/-- A record result goes to a reference or, later, to an inline value. -/
def admitsRecord (schema : HostRecordSchema) : Bool :=
  (actual.kind == 7 || actual.kind == 8 && 20 ≤ r.artifact.header.runtimeMinor) && !actual.nullable &&
    13 ≤ r.artifact.header.runtimeMinor &&
    ((actual.nominal).bind (r.admitRecord · schema)).any r.hasPhysicalShape

def resultMatches (function : ResolvedFunction) (destination : Nat) (operation : ResolvedOperation) : Bool :=
  match operation.result with
  | .unit => destination == absentRegister
  | .record =>
    match function.registers[destination]?, operation.resultRecord with
    | some actual, some schema => r.admitsRecord actual schema
    | _, _ => false
  | expected =>
    destination != absentRegister &&
      (function.registers[destination]?).any fun actual => r.hostTypeMatches actual expected

def argumentsMatch (function : ResolvedFunction) (arguments : List Nat) (expected : List HostValueType) : Bool :=
  arguments.length == expected.length &&
    (arguments.zip expected).all fun (register, expected) =>
      (function.registers[register]?).any fun actual => r.hostTypeMatches actual expected

def validateCapabilityCall (function destination capability operation : Nat) (arguments : List Nat)
    (asynchronous : Bool) : Admits Unit := do
  let found ← demandSome (r.capabilities[capability]?).join (.missingCapability (min capability 255))
  let schema ← demandSome found.operations[operation]?
    (.capabilityOperationCount capability (min (operation + 1) (2 ^ 32 - 1)) found.operations.length)
  let resolved ← demandSome r.functions[function]? .invalidEntry
  demand (schema.asynchronous == asynchronous && r.argumentsMatch resolved arguments schema.arguments &&
    r.resultMatches resolved destination schema) (.capabilitySchema capability operation)

end Resolution

/-! ## Instructions -/

inductive ResolvedInstruction
  /-- An instruction without a reference. -/
  | plain (i : Instruction)
  | const (dst constant : Nat)
  | newObject (dst : Nat) (ty : TypeKey)
  | newArray (dst : Nat) (ty : TypeKey) (length : Nat)
  | staticGet (dst : Nat) (field : ResolvedField)
  | staticSet (field : ResolvedField) (value : Nat)
  | fieldGet (dst receiver : Nat) (field : ResolvedField)
  | fieldSet (receiver : Nat) (field : ResolvedField) (value : Nat)
  | isType (dst value : Nat) (ty : TypeKey)
  | checkedCast (dst value : Nat) (ty : TypeKey)
  | callDirect (dst target : Nat) (args : List Nat)
  | callVirtual (dst declaration : Nat) (args : List Nat)
  | callInterface (dst declaration : Nat) (args : List Nat)
  | callSuspend (dst target : Nat) (args : List Nat) (resumeBlock : Nat)
  | taskSpawn (dst target : Nat) (args : List Nat)
  | taskJoin (task resumeBlock : Nat)
  | channelSend (channel value resumeBlock : Nat)
  | channelReceive (dst channel resumeBlock : Nat)
  | capabilityCallSync (dst capability operation : Nat) (args : List Nat)
  | capabilityCallAsync (dst capability operation : Nat) (args : List Nat) (resumeBlock : Nat)
  | jump (target : Nat)
  | branch (condition trueBlock falseBlock : Nat)
  | switchI32 (key defaultBlock : Nat) (cases : List (Int × Nat))
  deriving DecidableEq

namespace Resolution

variable (r : Resolution)

variable (moduleId reference : Nat)

def typeOperand : Admits TypeKey :=
  demandSome (resolveType r.artifact moduleId reference) .invalidEntry

def fieldOperand : Admits ResolvedField := do
  demandSome r.fields[← resolveFieldIndex r.artifact r.offsets moduleId reference]? .invalidEntry

/-- The global index of a function. -/
def functionOperand : Admits Nat := do
  let key ← demandSome (← resolveFunction r.artifact r.fuel moduleId reference) .invalidEntry
  return (← offsetAt r.offsets.functions key.module) + key.function

def resolveInstruction (moduleId function : Nat) (instruction : Instruction) :
    Admits ResolvedInstruction := do
  let block (target : Nat) : Admits Nat := do return (← offsetAt r.offsets.blocks moduleId) + target
  match instruction with
  | .const dst constant => return .const dst ((← offsetAt r.offsets.constants moduleId) + constant)
  | .newObject dst typeRef => return .newObject dst (← r.typeOperand moduleId typeRef)
  | .newArray dst typeRef length => return .newArray dst (← r.typeOperand moduleId typeRef) length
  | .staticGet dst fieldRef => return .staticGet dst (← r.fieldOperand moduleId fieldRef)
  | .staticSet fieldRef value => return .staticSet (← r.fieldOperand moduleId fieldRef) value
  | .fieldGet dst receiver fieldRef => return .fieldGet dst receiver (← r.fieldOperand moduleId fieldRef)
  | .fieldSet receiver fieldRef value =>
    return .fieldSet receiver (← r.fieldOperand moduleId fieldRef) value
  | .isType dst value typeRef => return .isType dst value (← r.typeOperand moduleId typeRef)
  | .checkedCast dst value typeRef => return .checkedCast dst value (← r.typeOperand moduleId typeRef)
  | .callDirect dst functionRef args =>
    return .callDirect dst (← r.functionOperand moduleId functionRef) args
  | .callVirtual dst functionRef args =>
    return .callVirtual dst (← r.functionOperand moduleId functionRef) args
  | .callInterface dst functionRef args =>
    return .callInterface dst (← r.functionOperand moduleId functionRef) args
  | .callSuspend dst functionRef args resumeBlock =>
    return .callSuspend dst (← r.functionOperand moduleId functionRef) args (← block resumeBlock)
  | .coroutineSpawn dst functionRef args =>
    return .taskSpawn dst (← r.functionOperand moduleId functionRef) args
  | .coroutineJoin dst coroutine resumeBlock =>
    demand (dst == absentRegister) .invalidEntry
    return .taskJoin coroutine (← block resumeBlock)
  | .channelSend channel value resumeBlock => return .channelSend channel value (← block resumeBlock)
  | .channelReceive dst channel resumeBlock => return .channelReceive dst channel (← block resumeBlock)
  | .capabilityCallSync dst capability operation args =>
    r.validateCapabilityCall function dst capability operation args false
    return .capabilityCallSync dst capability operation args
  | .capabilityCallAsync dst capability operation args resumeBlock =>
    r.validateCapabilityCall function dst capability operation args true
    return .capabilityCallAsync dst capability operation args (← block resumeBlock)
  | .jump target => return .jump (← block target)
  | .branch condition trueBlock falseBlock =>
    return .branch condition (← block trueBlock) (← block falseBlock)
  | .switchI32 key defaultBlock cases =>
    let resolved ← cases.mapM fun c => do return (c.value, ← block c.target)
    return .switchI32 key (← block defaultBlock) resolved
  | .yield _ | .sleep _ _ => throw .invalidEntry
  | i => return .plain i

structure ResolvedBlock where
  (function fixedCost : Nat)
  instructions : List ResolvedInstruction
  deriving DecidableEq

def resolveBlock (m : DecodedModule) (moduleId blockId : Nat) (block : BlockRecord) :
    Admits ResolvedBlock := do
  let function := (← offsetAt r.offsets.functions moduleId) + block.ownerFunction
  let code ← demandSome m.code[blockId]? .invalidEntry
  return ⟨function, code.fixedCost, ← code.instructions.mapM (r.resolveInstruction moduleId function)⟩

def resolveBlocks : Admits (List ResolvedBlock) := do
  let blocks ← r.artifact.modules.zipIdx.mapM fun (m, moduleId) =>
    m.blocks.zipIdx.mapM fun (block, blockId) => r.resolveBlock m moduleId blockId block
  return blocks.flatten

end Resolution

end Compukter.Image
