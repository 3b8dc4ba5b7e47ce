/-
Resolving functions at admission: registers, frame layouts, safepoint maps and exception handlers; the
references to functions and fields; and the table of virtual and interface dispatch.
-/
import Compukter.Image.Types

namespace Compukter.Image

open Fallible

/-! ## References to functions and fields -/

structure FunctionKey where
  (module function : Nat)
  deriving DecidableEq

/-- The first export of a function with the name and a matching signature. -/
def exportedFunction (artifact : DecodedArtifact) (fuel moduleId : Nat) (found : Import)
    (target : DecodedModule) (name : List UInt8) : List Export → Admits (Option Export)
  | [] => .ok none
  | e :: rest => do
    if e.kind == 1 && target.strings[e.name]? == some name then
      match artifact.signaturesMatch fuel moduleId found.expectedSignature found.targetModule e.signature with
      | .ok true => return some e
      | .ok false => exportedFunction artifact fuel moduleId found target name rest
      | .error _ => throw .diverges
    else exportedFunction artifact fuel moduleId found target name rest

variable (artifact : DecodedArtifact) (t : DispatchTables)

def resolveFunction (fuel moduleId reference : Nat) : Admits (Option FunctionKey) :=
  if reference = absentId then .ok none
  else
    match artifact.modules[moduleId]? with
    | none => .ok none
    | some m =>
      if reference &&& importBit = 0 then
        .ok (if reference < m.functions.length then some ⟨moduleId, reference⟩ else none)
      else
        match m.imports[reference &&& 0x7fffffff]? with
        | none => .ok none
        | some found =>
          if found.kind ≠ 1 then .ok none
          else
            match artifact.modules[found.targetModule]?, m.strings[found.targetName]? with
            | some target, some name => do
              match ← exportedFunction artifact fuel moduleId found target name target.exports with
              | some e =>
                return if e.localSymbol < target.functions.length then
                  some ⟨found.targetModule, e.localSymbol⟩ else none
              | none => return none
            | _, _ => .ok none

def resolveFieldIndex (o : Offsets) (moduleId reference : Nat) :
    Admits Nat := do
  let (targetModule, localField) ← if reference &&& importBit = 0 then pure (moduleId, reference) else do
    let m ← demandSome artifact.modules[moduleId]? .invalidEntry
    let found ← demandSome m.imports[reference &&& 0x7fffffff]? .invalidEntry
    demand (found.kind == 2) .invalidEntry
    let target ← demandSome artifact.modules[found.targetModule]? .invalidEntry
    let name ← demandSome m.strings[found.targetName]? .invalidEntry
    let e ← demandSome (DecodedArtifact.exportNamed target 2 name) .invalidEntry
    pure (found.targetModule, e.localSymbol)
  let start ← demandSome o.fields[targetModule]? .invalidEntry
  let stop ← demandSome o.fields[targetModule + 1]? .invalidEntry
  demand (start + localField < stop) .invalidEntry
  return start + localField

/-! ## Functions -/

structure ResolvedSafepoint where
  (block instructionBoundary : Nat)
  offsets : List Nat
  deriving DecidableEq

structure ResolvedExceptionHandler where
  (protectedStart protectedEnd : Nat)
  catchType : Option TypeKey
  (handlerBlock exceptionRegister : Nat)
  deriving DecidableEq

structure ResolvedFunction where
  key : FunctionKey
  (registerCount parameterCount : Nat)
  registers : List ResolvedValueType
  registerAccesses : List FrameValueAccess
  frameLayout : FrameShape
  safepoints : List ResolvedSafepoint
  result : ResolvedValueType
  (firstBlock blockCount : Nat)
  staticOwner : Option TypeKey
  handlers : List ResolvedExceptionHandler
  deriving DecidableEq

/-- The instructions of the function's blocks: a map is expected at each of them. -/
def expectedSafepoints (m : DecodedModule) (function : Function) : Admits Nat :=
  (List.range function.blockCount).foldlM (fun count block => do
    let code ← demandSome m.code[function.firstBlock + block]? .invalidEntry
    return count + code.instructions.length) 0

/-- Maps in ascending order of their position, each within a block of the function. -/
def resolveSafepoints (m : DecodedModule) (blockOffset functionId : Nat) (layout : FrameLayout) :
    List SafepointRoots → Option (Nat × Nat) → Admits (List ResolvedSafepoint)
  | [], _ => .ok []
  | roots :: rest, previous => do
    let code ← demandSome m.code[roots.block]? .invalidEntry
    let record ← demandSome m.blocks[roots.block]? .invalidEntry
    demand (record.ownerFunction == functionId && roots.instructionBoundary < code.instructions.length)
      .invalidEntry
    let position := (blockOffset + roots.block, roots.instructionBoundary)
    demand (!(previous.any fun p => position.1 < p.1 || position.1 == p.1 && position.2 ≤ p.2))
      .invalidEntry
    let offsets ← demandSome (deriveSafepoint layout roots.references) .invalidEntry
    let later ← resolveSafepoints m blockOffset functionId layout rest (some position)
    return ⟨position.1, position.2, offsets⟩ :: later

def resolveHandler (moduleId blockOffset : Nat) (entry : ExceptionEntry) :
    Admits ResolvedExceptionHandler := do
  let protectedStart := blockOffset + entry.firstProtectedBlock
  let catchType ← if entry.catchType = absentId then pure none else do
    pure (some (← demandSome (resolveType artifact moduleId entry.catchType) .invalidEntry))
  return {
    protectedStart := protectedStart
    protectedEnd := protectedStart + entry.protectedBlockCount
    catchType := catchType
    handlerBlock := blockOffset + entry.handlerBlock
    exceptionRegister := entry.exceptionRegister }

/-- Stable insertion by the length of the protected range: inner regions come first. -/
def insertHandler (h : ResolvedExceptionHandler) :
    List ResolvedExceptionHandler → List ResolvedExceptionHandler
  | [] => [h]
  | first :: rest =>
    if h.protectedEnd - h.protectedStart ≤ first.protectedEnd - first.protectedStart then
      h :: first :: rest
    else first :: insertHandler h rest

def resolveHandlers (m : DecodedModule) (moduleId blockOffset : Nat)
    (function : Function) : Admits (List ResolvedExceptionHandler) := do
  demand (function.firstException + function.exceptionCount ≤ m.exceptions.length) .invalidEntry
  let entries := (m.exceptions.drop function.firstException).take function.exceptionCount
  let handlers ← entries.mapM (resolveHandler artifact moduleId blockOffset)
  return handlers.foldr insertHandler []

/-- A static function of a class initializes the class first. -/
def resolveStaticOwner (moduleId : Nat) (function : Function) : Admits (Option TypeKey) :=
  if function.flags &&& 2 != 0 then
    match resolveType artifact moduleId function.owner with
    | none => .ok none
    | some owner => do
      match ← demandSome (typeAt artifact owner) .panics with
      | .classType _ => return some owner
      | _ => return none
  else .ok none

def resolveFunctionRecord (o : Offsets) (m : DecodedModule)
    (moduleId functionId : Nat) (function : Function) : Admits ResolvedFunction := do
  let signature ← demandSome (resolveType artifact moduleId function.signature) .invalidEntry
  match ← demandSome (typeAt artifact signature) .panics with
  | .functionType t =>
    let registers ← function.values.mapM fun value => resolveValueType artifact moduleId value.semanticType
    let layout ← demandSome (derive function.values) .storagePlanOverflow
    let accesses := registers.zipIdx.map fun (value, register) =>
      valueAccess layout.toFrameLayout value.kind register
    let expected ← expectedSafepoints m function
    let blockOffset ← offsetAt o.blocks moduleId
    let safepoints ← resolveSafepoints m blockOffset functionId layout.toFrameLayout
      (m.safepointRoots.filter (·.function == functionId)) none
    demand (safepoints.length == expected) .invalidEntry
    let handlers ← resolveHandlers artifact m moduleId blockOffset function
    return {
      key := ⟨moduleId, functionId⟩
      registerCount := function.registerCount
      parameterCount := function.parameterCount
      registers := registers
      registerAccesses := accesses
      frameLayout := layout
      safepoints := safepoints
      handlers := handlers
      result := ← resolveValueType artifact signature.module t.result
      firstBlock := blockOffset + function.firstBlock
      blockCount := function.blockCount
      staticOwner := ← resolveStaticOwner artifact moduleId function }
  | _ => throw .invalidEntry

def resolveFunctions (o : Offsets) : Admits (List ResolvedFunction) := do
  let functions ← artifact.modules.zipIdx.mapM fun (m, moduleId) =>
    m.functions.zipIdx.mapM fun (function, functionId) =>
      resolveFunctionRecord artifact o m moduleId functionId function
  return functions.flatten

/-! ## Dispatch -/

structure DispatchEntry where
  (actualType declaration implementation : Nat)
  deriving DecidableEq

/-- The tables that dispatch is resolved from. -/
structure DispatchTables where
  offsets : Offsets
  assignable : List (List TypeKey)
  functions : List ResolvedFunction

def DispatchTables.isAssignable (actual target : TypeKey) : Admits Bool := do
  let types ← demandSome t.assignable[← globalIndex t.offsets.types actual]? .invalidEntry
  return types.contains target

def functionRecord (key : FunctionKey) : Admits Function :=
  demandSome ((artifact.modules[key.module]?).bind (·.functions[key.function]?)) .panics

def functionName (key : FunctionKey) : Admits (List UInt8) := do
  let record ← functionRecord artifact key
  demandSome ((artifact.modules[key.module]?).bind (·.strings[record.name]?)) .panics

def covariantResult (declaration candidate : ResolvedValueType) : Admits Bool :=
  if declaration = candidate then .ok true
  else if declaration.kind ≠ 7 ∨ candidate.kind ≠ 7 ∨ (candidate.nullable ∧ !declaration.nullable) then
    .ok false
  else
    match declaration.nominal, candidate.nominal with
    | some expected, some actual => t.isAssignable actual expected
    | _, _ => .ok false

def sameMethodShape (declaration candidate : Nat) :
    Admits Bool := do
  let d ← demandSome t.functions[declaration]? .invalidEntry
  let c ← demandSome t.functions[candidate]? .invalidEntry
  if (← functionName artifact d.key) != (← functionName artifact c.key) then return false
  if !(← covariantResult t d.result c.result) then return false
  if d.parameterCount == 0 || c.parameterCount != d.parameterCount then return false
  return (d.registers.take d.parameterCount).drop 1 == (c.registers.take c.parameterCount).drop 1

/-- The first method of the range with the declaration's shape. -/
def findMethod (artifact : DecodedArtifact) (t : DispatchTables) (owner : TypeKey) (declaration : Nat) :
    List Nat → Admits (Option (Nat × Function))
  | [] => .ok none
  | localMethod :: rest => do
    let candidate := (← offsetAt t.offsets.functions owner.module) + localMethod
    let record ← demandSome ((artifact.modules[owner.module]?).bind (·.functions[localMethod]?))
      .invalidEntry
    if ← sameMethodShape artifact t declaration candidate then return some (candidate, record)
    else findMethod artifact t owner declaration rest

/-- Up the superclasses; the outer option says whether a method was found, also an abstract one. -/
def findInClasses (artifact : DecodedArtifact) (t : DispatchTables) (declaration : Nat) :
    Nat → Option TypeKey → Admits (Option (Option Nat))
  | _, none => .ok none
  | 0, some _ => .error .diverges
  | fuel + 1, some owner => do
    match ← demandSome (typeAt artifact owner) .panics with
    | .arrayType a =>
      findInClasses artifact t declaration fuel ((a.superType).bind (resolveType artifact owner.module))
    | .classType c =>
      match ← findMethod artifact t owner declaration (List.range' c.methodStart c.methodCount) with
      | some (candidate, record) => return some (if record.isAbstract then none else some candidate)
      | none =>
        findInClasses artifact t declaration fuel (resolveType artifact owner.module c.superType)
    | _ => throw .invalidEntry

/-- The methods with the declaration's shape in an interface's range. -/
def interfaceMethods (artifact : DecodedArtifact) (t : DispatchTables) (owner : TypeKey)
    (declaration : Nat) : List Nat → Admits (List (TypeKey × Nat))
  | [] => .ok []
  | localMethod :: rest => do
    let candidate := (← offsetAt t.offsets.functions owner.module) + localMethod
    let found ← sameMethodShape artifact t declaration candidate
    let later ← interfaceMethods artifact t owner declaration rest
    return if found then (owner, candidate) :: later else later

def interfaceCandidates (artifact : DecodedArtifact) (t : DispatchTables) (declaration : Nat) :
    List TypeKey → Admits (List (TypeKey × Nat))
  | [] => .ok []
  | owner :: rest => do
    let found ← match ← demandSome (typeAt artifact owner) .panics with
      | .interfaceType i =>
        interfaceMethods artifact t owner declaration (List.range' i.methodStart i.methodCount)
      | _ => pure []
    return found ++ (← interfaceCandidates artifact t declaration rest)

/-- A method is shadowed by the same method of a more specific interface. -/
def isShadowed (t : DispatchTables) (owner : TypeKey) : List (TypeKey × Nat) → Admits Bool
  | [] => .ok false
  | (other, _) :: rest => do
    if other ≠ owner then
      if ← t.isAssignable other owner then return true else isShadowed t owner rest
    else isShadowed t owner rest

/-- The one method that no other shadows. -/
def mostSpecific (t : DispatchTables) (all : List (TypeKey × Nat)) :
    List (TypeKey × Nat) → Option Nat → Admits (Option Nat)
  | [], selected => .ok selected
  | (owner, candidate) :: rest, selected => do
    if ← isShadowed t owner all then mostSpecific t all rest selected
    else if selected.isSome then return none
    else mostSpecific t all rest (some candidate)

def findMethodImplementation (actual : TypeKey)
    (declaration : Nat) : Admits (Option Nat) := do
  match ← findInClasses artifact t declaration ((moduleTypes artifact).length + 1) (some actual) with
  | some result => return result
  | none =>
    let types ← demandSome t.assignable[← globalIndex t.offsets.types actual]? .panics
    let candidates ← interfaceCandidates artifact t declaration types
    match ← mostSpecific t candidates candidates none with
    | none => return none
    | some candidate =>
      let f ← demandSome t.functions[candidate]? .panics
      return if (← functionRecord artifact f.key).isAbstract then none else some candidate

/-- The functions that are called through a receiver, with their owners. -/
def declarations (functions : List ResolvedFunction) :
    Admits (List (Nat × TypeKey)) := do
  let found ← functions.zipIdx.mapM fun (resolved, index) => do
    let record ← functionRecord artifact resolved.key
    let owner := resolveType artifact resolved.key.module record.owner
    let interfaceOwner ← match owner with
      | none => pure false
      | some owner => do
        match ← demandSome (typeAt artifact owner) .panics with
        | .interfaceType _ => pure true
        | _ => pure false
    if record.flags &&& 4 != 0 || interfaceOwner then
      pure [(index, ← demandSome owner .invalidEntry)]
    else pure []
  return found.flatten

/-- The entries of one type; a class that is not abstract implements everything it can be called for. -/
def typeEntries (artifact : DecodedArtifact) (t : DispatchTables) (actual : TypeKey) (flags : Nat) :
    List (Nat × TypeKey) → Admits (List DispatchEntry)
  | [] => .ok []
  | (declaration, owner) :: rest => do
    let actualType ← globalIndex t.offsets.types actual
    let types ← demandSome t.assignable[actualType]? .panics
    let found ← if types.contains owner then do
        match ← findMethodImplementation artifact t actual declaration with
        | some implementation => pure [⟨actualType, declaration, implementation⟩]
        | none => if flags &&& 1 == 0 then throw .invalidEntry else pure []
      else pure []
    return found ++ (← typeEntries artifact t actual flags rest)

def resolveDispatchEntries :
    Admits (List DispatchEntry) := do
  let declared ← declarations artifact t.functions
  let entries ← (moduleTypes artifact).mapM fun key =>
    match typeAt artifact key with
    | some (.classType c) => typeEntries artifact t key c.flags declared
    | some (.arrayType _) => typeEntries artifact t key 0 declared
    | _ => pure []
  return entries.flatten

end Compukter.Image
