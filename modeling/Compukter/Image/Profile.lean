/-
The execution profile: the limits under which the host admits an artifact, the check of an artifact's
manifest against them, and the plan of the storage that an admitted image reserves.

The two ABI digests of the manifest are compared here and nowhere else, so they stand apart from the
`Manifest`.  Sizes of Rust types are the compiler's; they are parameters.
-/
import Compukter.Artifact.Instruction
import Compukter.Image.Frame

namespace Compukter.Image

open Fallible

/-! ## Failures -/

inductive ResidentStorageComponent
  | heapArena | heapAllocator | frameArena | frameRecords | taskScheduler | channels | statics
  | typeInitialization | externalRoots | pendingState | machineFixedState
  deriving DecidableEq

inductive AdmissionError
  | compilerAbiMismatch | platformAbiMismatch
  | missingCapability (index : Nat)
  | heapLimit (required available : Nat)
  | invalidHeapSize (supplied : Nat)
  | frameStorageLimit (required available : Nat)
  | callDepthLimit (required available : Nat)
  | coroutineLimit (required available : Nat)
  | channelLimit (required available : Nat)
  | channelValueLimit (required available : Nat)
  | hostRequestLimit (required available : Nat)
  | eventLimit (required available : Nat)
  | sliceLimit (required available : Nat)
  | storagePlanOverflow
  | residentStorageOverflow (component : ResidentStorageComponent)
  | allocationFailed | invalidEntry | duplicateCapabilityBinding
  | capabilityOperationCount (capability required available : Nat)
  | capabilitySchema (capability operation : Nat)
  | synchronousCapabilityUnsupported
  /-- Not of the source: an index out of bounds. -/
  | panics
  /-- Not of the source: a loop that does not end. -/
  | diverges
  deriving DecidableEq

/-- The result of a step of admission. -/
abbrev Admits := Except AdmissionError

/-- A `u64` sum or product. -/
def checkedU64 (e : AdmissionError) (n : Nat) : Admits Nat := if n < 2 ^ 64 then .ok n else .error e

/-! ## The profile -/

structure AdmittedReference where
  ty : TypeKey
  (handle generation : Nat)
  live : Bool
  deriving DecidableEq

structure ExecutionProfile where
  (heapBytes frameStorageBytes maximumCallDepth maximumCoroutines maximumChannels : Nat)
  (maximumChannelValues maximumHostRequests maximumEvents maximumSliceBudget : Nat)
  (compilerAbi platformAbi : List UInt8)
  capabilityMask : Nat
  hostReferences : List AdmittedReference
  deriving DecidableEq

/-- The digests of the compiler and platform interfaces that the manifest names. -/
structure ManifestAbi where
  (compilerAbi platformAbi : List UInt8)
  deriving DecidableEq

def checkLimit (required available : Nat) (error : Nat → Nat → AdmissionError) : Admits Unit :=
  if available < required then .error (error required available) else .ok ()

/-- The storage that one activation takes from the arena. -/
def frameCharge (values : List FunctionValue) : Admits Nat := do
  let layout ← demandSome (derive values) .storagePlanOverflow
  let charge ← checkedU64 .storagePlanOverflow (layout.byteLen + 7)
  return charge / 8 * 8

/-- The functions that have a body. -/
def concreteFunctions (artifact : DecodedArtifact) : List Function :=
  (artifact.modules.flatMap (·.functions)).filter fun function => !function.isAbstract

def largestFrameCharge (artifact : DecodedArtifact) : Admits Nat :=
  (concreteFunctions artifact).foldlM
    (fun largest function => do return max largest (← frameCharge function.values)) 0

def checkProfile (abi : ManifestAbi) (artifact : DecodedArtifact) (profile : ExecutionProfile) :
    Admits Unit := do
  demand (!(profile.heapBytes < 32 || profile.heapBytes % 16 != 0)) (.invalidHeapSize profile.heapBytes)
  let manifest := artifact.manifest
  demand (abi.compilerAbi == profile.compilerAbi) .compilerAbiMismatch
  demand (abi.platformAbi == profile.platformAbi) .platformAbiMismatch
  let missing := manifest.requiredCapabilities &&& Bits.complement 32 profile.capabilityMask
  demand (missing == 0) (.missingCapability (trailingZeros 32 missing))
  checkLimit manifest.requiredHeapBytes profile.heapBytes .heapLimit
  checkLimit manifest.maximumCallDepth profile.maximumCallDepth .callDepthLimit
  checkLimit manifest.maximumCoroutines profile.maximumCoroutines .coroutineLimit
  checkLimit manifest.maximumChannels profile.maximumChannels .channelLimit
  checkLimit manifest.maximumChannelValues profile.maximumChannelValues .channelValueLimit
  checkLimit manifest.maximumHostRequests profile.maximumHostRequests .hostRequestLimit
  checkLimit manifest.maximumEvents profile.maximumEvents .eventLimit
  checkLimit manifest.minimumSliceCost profile.maximumSliceBudget .sliceLimit
  let largest ← largestFrameCharge artifact
  let reservation ← checkedU64 .storagePlanOverflow (largest * manifest.maximumCallDepth)
  demand (!(manifest.requiredStackBytes < reservation))
    (.frameStorageLimit reservation manifest.requiredStackBytes)
  demand (!(profile.frameStorageBytes < reservation))
    (.frameStorageLimit reservation profile.frameStorageBytes)

/-! ## The storage plan -/

/-- What the compiler knows about the sizes of the runtime's own records. -/
structure RuntimeSizes where
  frame : Nat
  /-- A task record and two words. -/
  (task taskFailure hostFailure channel waiter typeInitialization externalRoot pendingState : Nat)
  machineFixed : Nat

structure StorageCharges where
  (heapArenaBytes heapAllocatorBytes frameArenaBytes frameRecordBytes taskSchedulerBytes : Nat)
  (channelBytes staticBytes typeInitializationBytes externalRootBytes pendingStateBytes : Nat)
  machineFixedBytes : Nat
  deriving DecidableEq

/-- A plan with the format of block headers and the sum of all charges. -/
structure StoragePlan extends StorageCharges where
  headerFormat : HeaderFormat
  mutableResidentBytes : Nat
  deriving DecidableEq

def StorageCharges.components (c : StorageCharges) : List (ResidentStorageComponent × Nat) :=
  [(.heapArena, c.heapArenaBytes), (.heapAllocator, c.heapAllocatorBytes),
    (.frameArena, c.frameArenaBytes), (.frameRecords, c.frameRecordBytes),
    (.taskScheduler, c.taskSchedulerBytes), (.channels, c.channelBytes), (.statics, c.staticBytes),
    (.typeInitialization, c.typeInitializationBytes), (.externalRoots, c.externalRootBytes),
    (.pendingState, c.pendingStateBytes), (.machineFixedState, c.machineFixedBytes)]

/-- The component whose charge leaves `u64` is named. -/
def StoragePlan.checked (c : StorageCharges) : Admits StoragePlan := do
  let total ← c.components.foldlM
    (fun total charge => checkedU64 (.residentStorageOverflow charge.1) (total + charge.2)) 0
  return ⟨c, .legacy, total⟩

def StoragePlan.withHeaderFormat (plan : StoragePlan) (format : HeaderFormat) : StoragePlan :=
  { plan with headerFormat := format }

def heapAllocatorBytes : Nat := classCount * 4

/-- The saved frames of all tasks and the active ones. -/
def frameRecordBytes (sizes : RuntimeSizes) (callDepth coroutines : Nat) : Admits Nat := do
  let active ← checkedU64 (.residentStorageOverflow .frameRecords) (sizes.frame * callDepth)
  checkedU64 (.residentStorageOverflow .frameRecords) (active * (coroutines + 1))

def taskSchedulerBytes (sizes : RuntimeSizes) (coroutines : Nat) (hostFailures : Bool) : Admits Nat := do
  let overflow := .residentStorageOverflow .taskScheduler
  let tasks ← checkedU64 overflow (sizes.task * coroutines)
  let failures ← checkedU64 overflow
    ((sizes.taskFailure + if hostFailures then sizes.hostFailure else 0) * coroutines)
  checkedU64 overflow (failures + tasks)

def channelBytes (sizes : RuntimeSizes) (channels values coroutines : Nat) : Admits Nat := do
  let overflow := .residentStorageOverflow .channels
  let tasks := if channels = 0 then 0 else coroutines
  let channelBytes ← checkedU64 overflow (sizes.channel * channels)
  let valueBytes ← checkedU64 overflow (4 * values)
  let waiterBytes ← checkedU64 overflow (sizes.waiter * tasks)
  let sum ← checkedU64 overflow (channelBytes + valueBytes)
  checkedU64 overflow (sum + waiterBytes)

/-- The plan of an image, from the manifest, the profile and what resolving the artifact found. -/
def planStorage (sizes : RuntimeSizes) (manifest : Manifest) (profile : ExecutionProfile)
    (format : HeaderFormat) (hostFailures : Bool) (staticBytes typeCount : Nat) : Admits StoragePlan := do
  let frameRecords ← frameRecordBytes sizes manifest.maximumCallDepth manifest.maximumCoroutines
  let tasks ← taskSchedulerBytes sizes manifest.maximumCoroutines hostFailures
  let channels ← channelBytes sizes manifest.maximumChannels manifest.maximumChannelValues
    manifest.maximumCoroutines
  let statics ← checkedU64 .storagePlanOverflow (staticBytes + 7)
  let initialization ← checkedU64 (.residentStorageOverflow .typeInitialization)
    (sizes.typeInitialization * typeCount)
  let externalRoots ← checkedU64 (.residentStorageOverflow .externalRoots)
    (manifest.maximumHostRequests * sizes.externalRoot)
  let plan ← StoragePlan.checked {
    heapArenaBytes := profile.heapBytes
    heapAllocatorBytes := heapAllocatorBytes
    frameArenaBytes := manifest.requiredStackBytes
    frameRecordBytes := frameRecords
    taskSchedulerBytes := tasks
    channelBytes := channels
    staticBytes := statics / 8 * 8
    typeInitializationBytes := initialization
    externalRootBytes := externalRoots
    pendingStateBytes := sizes.pendingState
    machineFixedBytes := sizes.machineFixed }
  return plan.withHeaderFormat format

end Compukter.Image
