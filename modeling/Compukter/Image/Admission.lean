/-
Admission: from a verified artifact and an execution profile to the image that a machine runs, and the
storage that a machine reserves for an image.

The image is built in the order of the source, so that the first failing step decides the error.  What
no later part of the model reads (names of types, records of the artifact's bytes) is left out.
-/
import Compukter.Image.Instructions
import Compukter.Image.Literals

namespace Compukter.Image

open Fallible

structure ResolvedHostReference where
  value : Ref32
  generation : Nat
  ty : TypeKey
  live : Bool
  assignableTo : List TypeKey
  deriving DecidableEq

structure ExecutionImage where
  entry : Nat
  functions : List ResolvedFunction
  dispatchEntries : List DispatchEntry
  dispatchOffsets : List Nat
  blocks : List Resolution.ResolvedBlock
  constants : List RuntimeValue
  hostReferences : List ResolvedHostReference
  typeOffsets : List Nat
  typeKeys : List TypeKey
  typeLayouts : List TypeLayout
  typeInitializers : List (Option Nat)
  typeSuperclasses : List (Option TypeKey)
  classTypes : List Bool
  assignableTypes : List (List TypeKey)
  arrayElementTypes : List (Option ResolvedValueType)
  fields : List ResolvedField
  staticLayout : FrameShape
  literals : List ResolvedLiteral
  literalIds : List Nat
  stringType : Option TypeKey
  runtimeExceptionTypes : List (Option TypeKey)
  storagePlan : StoragePlan
  (registersPerFrame maximumCallDepth maximumCoroutines maximumChannels maximumChannelValues : Nat)
  (externalRootCapacity minimumSliceCost maximumSliceBudget : Nat)
  deriving DecidableEq

/-! ## Tables by type -/

variable (artifact : DecodedArtifact)

/-- The initializer of a class, as a global function index. -/
def typeInitializer (o : Offsets) (key : TypeKey) : Admits (Option Nat) :=
  match typeAt artifact key with
  | some (.classType t) =>
    match t.initializer with
    | none => .ok none
    | some initializer => do
      let start ← offsetAt o.functions key.module
      let stop ← offsetAt o.functions (key.module + 1)
      demand (start + initializer < stop) .invalidEntry
      return some (start + initializer)
  | _ => .ok none

def typeSuperclass (key : TypeKey) : Option TypeKey :=
  match typeAt artifact key with
  | some (.classType t) => resolveType artifact key.module t.superType
  | _ => none

def isClass (key : TypeKey) : Bool :=
  match typeAt artifact key with
  | some (.classType _) => true
  | _ => false

def arrayElementType (key : TypeKey) : Admits (Option ResolvedValueType) :=
  match typeAt artifact key with
  | some (.arrayType t) => do return some (← resolveValueType artifact key.module t.element)
  | _ => .ok none

/-- Where the entries of each type start: the cursor passes the entries of one type after the other. -/
def dispatchStarts (entries : List DispatchEntry) : List Nat → Nat → List Nat × Nat
  | [], cursor => ([], cursor)
  | actualType :: rest, cursor =>
    let own := (entries.drop cursor).takeWhile (·.actualType == actualType)
    let (starts, last) := dispatchStarts entries rest (cursor + own.length)
    (cursor :: starts, last)

def dispatchOffsets (entries : List DispatchEntry) (typeCount : Nat) : Admits (List Nat) := do
  let (starts, cursor) := dispatchStarts entries (List.range typeCount) 0
  demand (cursor == entries.length) .invalidEntry
  return starts ++ [cursor]

def resolveHostReferences (artifact : DecodedArtifact) :
    List AdmittedReference → List Nat → Admits (List ResolvedHostReference)
  | [], _ => .ok []
  | reference :: rest, prior => do
    demand ((typeAt artifact reference.ty).isSome && !prior.contains reference.handle) .invalidEntry
    let assignableTo ← assignableTypes artifact reference.ty
    let value ← demandSome (Ref32.new .external reference.handle) .storagePlanOverflow
    let later ← resolveHostReferences artifact rest (reference.handle :: prior)
    return ⟨value, reference.generation, reference.ty, reference.live, assignableTo⟩ :: later

/-- The name of each type is in the string table of its module. -/
def checkTypeNames (isUtf8 : List UInt8 → Bool) : Admits Unit :=
  checkAll (fun m => checkAll (fun t => do
    let name := match t with
      | .inlineValue t | .classType t | .interfaceType t | .arrayType t | .functionType t => t.name
    let text ← demandSome m.strings[name]? .invalidEntry
    demand (isUtf8 text) .invalidEntry) m.types) artifact.modules

/-- What admission knows besides the artifact: the sizes of the runtime's records, the check of UTF-8, the
fuel for comparing signatures and the host's capabilities. -/
structure Host where
  sizes : RuntimeSizes
  isUtf8 : List UInt8 → Bool
  fuel : Nat
  capabilities : List (Option ResolvedCapability)

def admitWithCapabilities (host : Host) (abi : ManifestAbi) (artifact : DecodedArtifact)
    (profile : ExecutionProfile) : Admits ExecutionImage := do
  checkProfile abi artifact profile
  let o := Offsets.of artifact
  let keys ← resolveTypeKeys o.types
  let typeCount ← total o.types
  let format := HeaderFormat.select profile.heapBytes typeCount
  let layouts ← deriveTypeLayouts artifact o format
  let initializers ← keys.mapM (typeInitializer artifact o)
  let assignable ← keys.mapM (assignableTypes artifact)
  let elements ← keys.mapM (arrayElementType artifact)
  let fields ← resolveFields artifact o layouts
  let staticAtoms ← (fields.filter (·.staticSlot.isSome)).mapM fun field => physicalAtom field.valueType
  let staticLayout ← demandSome (deriveScalars staticAtoms) .storagePlanOverflow
  let stringType ← resolveStandardStringType artifact
  let exceptionTypes ← runtimeExceptionTypes artifact
  let (literals, literalIds) ← deduplicateLiteralRanges (artifact.modules.flatMap (·.utf16Literals))
  let constants ← artifact.modules.zipIdx.mapM fun (m, moduleId) =>
    m.constants.mapM (resolveConstant o literalIds moduleId)
  let functions ← resolveFunctions artifact o
  let entries ← resolveDispatchEntries artifact ⟨o, assignable, functions⟩
  let dispatch ← dispatchOffsets entries keys.length
  let plan ← planStorage host.sizes artifact.manifest profile format
    ((exceptionTypes[7]?).join).isSome staticLayout.byteLen layouts.length
  let blocks ← Resolution.resolveBlocks
    ⟨artifact, host.fuel, o, fields, functions, host.capabilities, stringType, layouts⟩
  let hostReferences ← resolveHostReferences artifact profile.hostReferences []
  checkTypeNames artifact host.isUtf8
  let start ← demandSome o.functions[artifact.header.entryModule]? .invalidEntry
  let entry := start + artifact.header.entryFunction
  demand (entry < functions.length) .invalidEntry
  return {
    entry := entry
    functions := functions
    dispatchEntries := entries
    dispatchOffsets := dispatch
    blocks := blocks
    constants := constants.flatten
    hostReferences := hostReferences
    typeOffsets := o.types
    typeKeys := keys
    typeLayouts := layouts
    typeInitializers := initializers
    typeSuperclasses := keys.map (typeSuperclass artifact)
    classTypes := keys.map (isClass artifact)
    assignableTypes := assignable
    arrayElementTypes := elements
    fields := fields
    staticLayout := staticLayout
    literals := imageLiterals stringType literals
    literalIds := literalIds
    stringType := stringType
    runtimeExceptionTypes := exceptionTypes
    storagePlan := plan
    registersPerFrame := (functions.map (·.registers.length)).foldl max 0
    maximumCallDepth := artifact.manifest.maximumCallDepth
    maximumCoroutines := artifact.manifest.maximumCoroutines
    maximumChannels := artifact.manifest.maximumChannels
    maximumChannelValues := artifact.manifest.maximumChannelValues
    externalRootCapacity := artifact.manifest.maximumHostRequests
    minimumSliceCost := artifact.manifest.minimumSliceCost
    maximumSliceBudget := profile.maximumSliceBudget }

/-! ## The machine's storage -/

/-- What a machine allocates when it is built. -/
structure MachineStorage where
  heap : Heap
  externalRoots : Nat
  frameArena : FrameStack
  (frames taskFrames tasks channels channelValues waiters : Nat)
  statics : FrameStack

/-- A static arena has room for its one reservation. -/
def newStatics (layout : FrameShape) : Except Refusal FrameStack := do
  let capacity ← demandSome (align layout.byteLen 8) (.fault .invalidStoragePlan)
  let arena ← FrameStack.new capacity
  return (← arena.push layout).1

def heapError : Compukter.AdmissionError → AdmissionError
  | .residentStorageOverflow => .residentStorageOverflow .heapArena
  | .invalidHeapSize supplied => .invalidHeapSize supplied
  | .storagePlanOverflow => .storagePlanOverflow

/-- A refused arena and a scheduler without tasks are reported as failed allocations. -/
def newMachine (image : ExecutionImage) : Admits MachineStorage := do
  let heap ← (Heap.new ⟨image.storagePlan.headerFormat, image.storagePlan.heapArenaBytes⟩).mapError heapError
  demand (image.storagePlan.frameArenaBytes < 2 ^ 32) (.residentStorageOverflow .frameArena)
  let arena ← (FrameStack.new image.storagePlan.frameArenaBytes).mapError fun _ => .allocationFailed
  demand (image.maximumCoroutines != 0) .allocationFailed
  let statics ← (newStatics image.staticLayout).mapError fun _ => .allocationFailed
  return {
    heap := heap
    externalRoots := image.externalRootCapacity
    frameArena := arena
    frames := image.maximumCallDepth
    taskFrames := image.maximumCallDepth * image.maximumCoroutines
    tasks := image.maximumCoroutines
    channels := image.maximumChannels
    channelValues := image.maximumChannelValues
    waiters := if image.maximumChannels = 0 then 0 else image.maximumCoroutines
    statics := statics }

end Compukter.Image
