/-
The exception pass of the verifier: the Throwable root, the roles of the runtime exceptions, and the
handler table of every function.

A role is a class below the root: the walk up from it meets only classes without state until it
arrives at the root.  Handler ranges of one function nest or are disjoint.

The last check of the verifier, that the feature bits of the header say what the code uses, is here too.
-/
import Mathlib.Data.List.Sort
import Compukter.Verify.Modules
import Compukter.Verify.Dataflow

namespace Compukter

open Fallible

def exceptionFailure (moduleId functionId : Nat) (detail : String) : Rejection :=
  .diagnostic ⟨.exception, .badException, some moduleId, some functionId, detail⟩

/-- `(runtime_major, runtime_minor) < (1, minor)`. -/
def ArtifactHeader.isBefore (h : ArtifactHeader) (minor : Nat) : Bool :=
  h.runtimeMajor < 1 || (h.runtimeMajor == 1 && h.runtimeMinor < minor)

def DecodedModule.instructions (m : DecodedModule) : List Instruction :=
  m.code.flatMap DecodedCode.instructions

/-! ## Nesting of protected ranges -/

/-- Outer ranges first.  Handlers that the order does not separate have equal ranges, so it does not
matter that the sort of the source is unstable. -/
def Handler.isBefore (left right : Handler) : Prop :=
  left.protectedStart < right.protectedStart ∨
    (left.protectedStart = right.protectedStart ∧ right.protectedEnd ≤ left.protectedEnd)

instance : DecidableRel Handler.isBefore := fun _ _ => inferInstanceAs (Decidable (_ ∨ _))

/-- The scan over the sorted ranges; the stack holds the ranges that may enclose the next one. -/
def crossingRanges : List Handler → List Handler → Bool
  | _, [] => false
  | stack, current :: rest =>
    let enclosing := stack.dropWhile (·.protectedEnd ≤ current.protectedStart)
    if enclosing.head?.any (·.protectedEnd < current.protectedEnd) then true
    else crossingRanges (current :: enclosing) rest

namespace DecodedArtifact

variable (a : DecodedArtifact)

/-- Every type with its identity, in the order in which the passes visit them. -/
def identifiedTypes : List (TypeIdentity × NominalType) :=
  a.modules.zipIdx.flatMap fun (m, moduleId) =>
    m.types.zipIdx.map fun (nominal, typeId) => ((moduleId, typeId), nominal)

/-! ## The Throwable root -/

def isStringClass (identity : TypeIdentity) : Bool :=
  match a.typeAt identity with
  | some (.classType t) => (a.moduleAt identity.1).strings[t.name]? == some kotlinString
  | _ => false

/-- A message and a cause, both nullable and neither static. -/
def throwableFields (identity : TypeIdentity) (start : Nat) : Bool :=
  match (a.moduleAt identity.1).fields[start]?, (a.moduleAt identity.1).fields[start + 1]? with
  | some message, some cause =>
    [message, cause].all (fun field =>
      field.flags &&& 2 == 0 && a.resolvedType identity.1 field.owner == some identity) &&
    message.valueType.kind == 7 && message.valueType.flags == 1 &&
    ((a.resolvedType identity.1 message.valueType.nominalType).map a.isStringClass).getD false &&
    cause.valueType.kind == 7 && cause.valueType.flags == 1 &&
    a.resolvedType identity.1 cause.valueType.nominalType == some identity
  | _, _ => false

def throwableParent (moduleId : Nat) (superType : TypeId) : Bool :=
  superType == absentId || (((a.resolvedType moduleId superType).bind a.typeAt).map a.isStatelessRoot).getD false

def throwableLayout (identity : TypeIdentity) (t : ClassType) : Bool :=
  t.flags == 4 && t.genericArity == 0 && t.interfaces.isEmpty && t.fieldCount == 2 &&
    t.methodCount == 0 && t.initializer.isNone && a.throwableFields identity t.fieldStart &&
    a.throwableParent identity.1 t.superType

/-- At most one class is flagged as the root. -/
def findThrowableRoot (root : Option TypeIdentity) :
    List (TypeIdentity × NominalType) → Checked (Option TypeIdentity)
  | [] => .ok root
  | (identity, .classType t) :: rest =>
    if t.flags &&& 4 = 0 then findThrowableRoot root rest
    else do
      demand root.isNone (exceptionFailure identity.1 0 "multiple Throwable roots")
      demand (!a.header.isBefore 8)
        (exceptionFailure identity.1 0 "Throwable root requires Runtime ABI 1.8")
      demand (a.throwableLayout identity t)
        (exceptionFailure identity.1 0 "invalid Throwable root layout or superclass")
      findThrowableRoot (some identity) rest
  | _ :: rest => findThrowableRoot root rest

def verifyThrowableRoot : Checked (Option TypeIdentity) := a.findThrowableRoot none a.identifiedTypes

/-! ## Runtime exception roles -/

/-- The walk up the superclasses of a role; it stops at the root, at a class with state, and after as
many steps as there are types. -/
def climb (root : Option TypeIdentity) : Nat → Option TypeIdentity → Option TypeIdentity
  | 0, current => current
  | remaining + 1, current =>
    if current = root then current
    else match current with
      | none => none
      | some identity =>
        match a.typeAt identity with
        | some (.classType t) =>
          if t.genericArity == 0 && t.fieldCount == 0 && t.methodCount == 0 &&
              t.initializer.isNone && t.flags &&& 5 == 0 && t.interfaces.isEmpty then
            climb root remaining (a.resolvedType identity.1 t.superType)
          else current
        | _ => current

def typeCount : Nat := (a.modules.map (·.types.length)).sum

/-- A role is taken once, by a stateless subclass. -/
def findRoles (root : Option TypeIdentity) (roles : List (Option TypeIdentity)) :
    List (TypeIdentity × NominalType) → Checked (List (Option TypeIdentity))
  | [] => .ok roles
  | (identity, .classType t) :: rest =>
    let tag := t.flags >>> 3
    if tag = 0 then findRoles root roles rest
    else do
      demand (!(8 < tag || a.header.isBefore 9))
        (exceptionFailure identity.1 0 "runtime exception role requires Runtime ABI 1.9")
      demand (roles[tag - 1]? == some none)
        (exceptionFailure identity.1 0 "duplicate runtime exception role")
      demand (root.isSome && a.climb root a.typeCount (some identity) == root && some identity != root)
        (exceptionFailure identity.1 0
          "runtime exception role requires a zero-state Throwable subclass")
      findRoles root (roles.set (tag - 1) (some identity)) rest
  | _ :: rest => findRoles root roles rest

def verifyRuntimeExceptionTypes (root : Option TypeIdentity) : Checked (List (Option TypeIdentity)) :=
  a.findRoles root (List.replicate 8 none) a.identifiedTypes

/-- The roles that an instruction may have to throw, by index. -/
def requiredRuntimeExceptionRoles : Instruction → List Nat
  | .capabilityCallSync .. | .capabilityCallAsync .. => [6, 7]
  | .div form _ _ _ | .rem form _ _ _ =>
    if form == 1 || form == 2 || form == 8 || form == 9 then [0] else []
  | .newArray .. => [2]
  | .arrayLoad .. | .arrayStore .. | .arrayCopy .. | .stringGet .. | .stringSubstring ..
  | .stringFromCharArray .. => [1, 3]
  | .checkedCast .. => [4, 3]
  | .arrayLength .. | .fieldGet .. | .fieldSet .. | .staticGet .. | .staticSet .. | .callVirtual ..
  | .callInterface .. | .stringLength .. | .stringEquals .. | .stringCompare .. | .stringHash ..
  | .stringConcat .. => [3]
  | .channelCreate .. | .channelSend .. | .channelReceive .. => [5]
  | _ => []

def instructions : List Instruction := a.modules.flatMap DecodedModule.instructions

def requireRoles (roles : List (Option TypeIdentity)) : Checked Unit :=
  let required := a.instructions.flatMap requiredRuntimeExceptionRoles
  demand (required.isEmpty ||
      (!a.header.isBefore 9 && required.all fun index => (roles[index]?.join).isSome))
    (exceptionFailure 0 0
      "operation error artifact: rebuild with exception roles for Runtime ABI 1.9")

/-! ## Handler tables -/

def isThrow : Instruction → Bool
  | .throw _ => true
  | _ => false

def usesExceptions : Bool :=
  a.modules.any fun m => !m.exceptions.isEmpty || m.instructions.any isThrow

/-- The root as the type of a register that cannot be null. -/
def rootValue (root : TypeIdentity) : ValueType := ⟨7, 0, root.2⟩

variable (fuel moduleId functionId : Nat)

/-- The catch type is a Throwable and fits the exception register; a catch-all register is the root. -/
def verifyCatch (root : TypeIdentity) (entry : ExceptionEntry) (register : ValueType) : Checked Unit :=
  if entry.catchType ≠ absentId then do
    let identity ← demandSome (a.resolvedType moduleId entry.catchType)
      (exceptionFailure moduleId functionId "catch type does not resolve")
    let isReference := match a.typeAt identity with
      | some (.classType _) | some (.interfaceType _) => true
      | _ => false
    demand isReference
      (exceptionFailure moduleId functionId "catch type is not a reference nominal type")
    let catchValue : ValueType := ⟨7, 0, entry.catchType⟩
    let throwable ← a.valueAssignable fuel moduleId catchValue root.1 (rootValue root)
    demand throwable (exceptionFailure moduleId functionId "catch type is not a Throwable subclass")
    let fits ← a.valueAssignable fuel moduleId catchValue moduleId register
    demand fits
      (exceptionFailure moduleId functionId "exception register and catch type are incompatible")
  else
    demand (a.resolvedType moduleId register.nominalType == some root)
      (exceptionFailure moduleId functionId "catch-all register must be the Throwable root")

/-- Its blocks, its register and what it catches. -/
def verifyHandler (function : Function) (root : Option TypeIdentity)
    (entry : ExceptionEntry) : Checked Handler := do
  let blockEnd := function.firstBlock + function.blockCount
  let protectedEnd := entry.firstProtectedBlock + entry.protectedBlockCount
  demand (entry.protectedBlockCount != 0 && function.firstBlock ≤ entry.firstProtectedBlock &&
      protectedEnd ≤ blockEnd)
    (exceptionFailure moduleId functionId "protected block range is empty or outside function")
  demand (entry.ownerFunction == functionId && function.firstBlock ≤ entry.handlerBlock &&
      entry.handlerBlock < blockEnd)
    (exceptionFailure moduleId functionId "exception owner or handler block is outside function")
  let register ← demandSome (function.values[entry.exceptionRegister]?.map FunctionValue.semanticType)
    (exceptionFailure moduleId functionId "exception register is out of range")
  demand (register.kind == 7 && register.flags &&& 1 == 0)
    (exceptionFailure moduleId functionId "exception register is not a non-null reference")
  let root ← demandSome root (exceptionFailure moduleId functionId "missing Throwable root")
  a.verifyCatch fuel moduleId functionId root entry register
  return ⟨entry.firstProtectedBlock, protectedEnd, entry.handlerBlock, entry.exceptionRegister⟩

def rejectCrossingRanges (moduleId functionId : Nat) (handlers : List Handler) : Checked Unit :=
  demand (!crossingRanges [] (handlers.insertionSort Handler.isBefore))
    (exceptionFailure moduleId functionId "exception protected ranges cross without nesting")

/-- What is thrown is a non-null Throwable. -/
def verifyThrow (function : Function) (root : Option TypeIdentity) :
    Instruction → Checked Unit
  | .throw exception => do
    let value ← demandSome (function.values[exception]?.map FunctionValue.semanticType)
      (exceptionFailure moduleId functionId "throw register is out of range")
    let root ← demandSome root (exceptionFailure moduleId functionId "missing Throwable root")
    let failure := exceptionFailure moduleId functionId "throw operand is not a non-null Throwable"
    demand (value.kind == 7 && value.flags == 0) failure
    let throwable ← a.valueAssignable fuel moduleId value root.1 (rootValue root)
    demand throwable failure
  | _ => .ok ()

/-- The handlers of one function, in order. -/
def functionHandlers (fuel : Nat) (root : Option TypeIdentity) (moduleId functionId : Nat)
    (function : Function) : Checked (List Handler) := do
  let module := a.moduleAt moduleId
  demand (function.firstException + function.exceptionCount ≤ module.exceptions.length)
    (exceptionFailure moduleId functionId "function exception range is out of bounds")
  demand (function.firstBlock + function.blockCount ≤ module.blocks.length)
    (exceptionFailure moduleId functionId "function block range is out of bounds")
  let handlers ← ((module.exceptions.drop function.firstException).take function.exceptionCount).mapM
    (a.verifyHandler fuel moduleId functionId function root)
  rejectCrossingRanges moduleId functionId handlers
  -- the source slices the code table, which panics where the table is too short
  demand (function.firstBlock + function.blockCount ≤ module.code.length) .panics
  checkAll (a.verifyThrow fuel moduleId functionId function root)
    (((module.code.drop function.firstBlock).take function.blockCount).flatMap DecodedCode.instructions)
  return handlers

/-- The handlers of each function of each module. -/
def handlerTables (fuel : Nat) (root : Option TypeIdentity) : Checked (List (List (List Handler))) := do
  demand (!(a.usesExceptions && a.header.isBefore 8))
    (exceptionFailure 0 0 "legacy exception artifact: rebuild for Runtime ABI 1.8")
  demand (!(a.usesExceptions && root.isNone))
    (exceptionFailure 0 0 "exception artifact requires a verified Throwable root; rebuild libraries")
  a.modules.zipIdx.mapM fun (m, moduleId) =>
    m.functions.zipIdx.mapM fun (function, functionId) =>
      a.functionHandlers fuel root moduleId functionId function

def verifyExceptions (fuel : Nat) : Checked (List (List (List Handler))) := do
  let root ← a.verifyThrowableRoot
  let roles ← a.verifyRuntimeExceptionTypes root
  a.requireRoles roles
  a.handlerTables fuel root

/-! ## Semantic features -/

def featureFailure (detail : String) : Rejection :=
  .diagnostic ⟨.module_, .badModule, none, none, detail⟩

def usesTasks : Instruction → Bool
  | .coroutineSpawn .. | .coroutineJoin .. => true
  | _ => false

def usesChannels : Instruction → Bool
  | .channelCreate .. | .channelSend .. | .channelReceive .. => true
  | _ => false

def usesArrayCopy : Instruction → Bool
  | .arrayCopy .. => true
  | _ => false

def usesStringConversion (converted : Nat) : Instruction → Bool
  | .stringValueOf form _ _ => form == converted
  | _ => false

def suspends : Instruction → Bool
  | .coroutineSpawn .. | .callSuspend .. | .yield _ | .sleep .. | .coroutineJoin .. | .channelSend ..
  | .channelReceive .. => true
  | _ => false

def callsCapability : Instruction → Bool
  | .capabilityCallSync .. | .capabilityCallAsync .. => true
  | _ => false

/-- What a module uses, in the order of the feature bits. -/
def moduleFeatures (m : DecodedModule) : List Bool :=
  [!m.exceptions.isEmpty || m.instructions.any isThrow,
    m.functions.any (fun f => f.flags &&& 1 != 0) || m.instructions.any suspends,
    !a.capabilities.isEmpty || m.instructions.any callsCapability,
    !m.imports.isEmpty,
    m.instructions.any usesChannels,
    m.instructions.any usesArrayCopy]

/-- A feature bit is set when some module uses the feature. -/
def expectedFeatures : Nat :=
  (List.range 6).foldl (fun expected bit =>
    if a.modules.any fun m => ((a.moduleFeatures m)[bit]?).getD false then expected ||| 1 <<< bit
    else expected) 0

def verifySemanticFeatures : Checked Unit := do
  let uses := fun used : Instruction → Bool => a.instructions.any used
  let hasLimits := a.manifest.maximumChannels != 0 || a.manifest.maximumChannelValues != 0
  demand (!(uses usesArrayCopy && a.header.isBefore 5))
    (featureFailure "array copying requires minimum runtime ABI 1.5")
  demand (!(uses usesTasks && a.header.isBefore 1))
    (featureFailure "task instructions require minimum runtime ABI 1.1")
  demand (!(uses usesChannels && a.header.isBefore 2))
    (featureFailure "channel instructions require minimum runtime ABI 1.2")
  demand (!(uses (usesStringConversion 2) && a.header.isBefore 3))
    (featureFailure "I64 string conversion requires minimum runtime ABI 1.3")
  demand (!(uses (usesStringConversion 3) && a.header.isBefore 4))
    (featureFailure "F32 string conversion requires minimum runtime ABI 1.4")
  demand (!(uses usesChannels &&
      (a.manifest.maximumChannels == 0 || a.manifest.maximumChannelValues == 0)))
    (featureFailure "channel instructions require non-zero channel manifest limits")
  demand (!(!uses usesChannels && hasLimits))
    (featureFailure "channel manifest limits require channel instructions")
  demand (a.header.semanticFeatures == a.expectedFeatures)
    (featureFailure "semantic feature bits do not exactly match artifact use")

end DecodedArtifact

end Compukter
