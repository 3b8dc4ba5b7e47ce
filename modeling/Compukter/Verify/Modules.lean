/-
The module pass of the verifier: module identities, import order, imports against exports, and the
nominal types.

The digest of a module is computed from the bytes of its sections with SHA-256; neither is modelled,
so the pass takes the digests as a parameter.
-/
import Compukter.Verify.Types
import Compukter.Lib.Dfs

namespace Compukter

open Fallible

/-- The digest that the verifier computes for a module, or why it cannot. -/
abbrev Digests := Nat → Checked (List UInt8)

section Failures

def moduleDiagnostic (family : Family) (code : Code) (moduleId : Nat) (detail : String) : Rejection :=
  .diagnostic ⟨family, code, some moduleId, none, detail⟩

def moduleFailure (moduleId : Nat) (detail : String) : Rejection :=
  moduleDiagnostic .module_ .badModule moduleId detail

def symbolFailure (moduleId : Nat) (detail : String) : Rejection :=
  moduleDiagnostic .symbol .badSymbol moduleId detail

def nominalFailure (moduleId : Nat) (detail : String) : Rejection :=
  moduleDiagnostic .type .badType moduleId detail

end Failures

namespace DecodedArtifact

variable (a : DecodedArtifact)

/-! ## Identities and order -/

def verifyDigest (digests : Digests) (moduleId : Nat) : Checked Unit := do
  let actual ← digests moduleId
  demand (actual == (a.moduleAt moduleId).semanticHash)
    (moduleFailure moduleId "module semantic SHA-256 does not match")

/-- Modules after the modules they import. -/
def topologicalModuleOrder : Checked (List Nat) :=
  match dfs (a.modules.map fun m => m.imports.map Import.targetModule) with
  | .ok order => .ok order
  | .error (.outOfRange node) => .error (symbolFailure node "import target module is out of range")
  | .error (.cycle node) => .error (moduleFailure node "module import graph contains a cycle")
  | .error .outOfFuel => .error .diverges

/-! ## Imports and exports -/

/-- Exports that agree with an import in kind, name and signature; the count stops at two. -/
def countMatches (fuel moduleId : Nat) (source : Import) (target : DecodedModule) (name : List UInt8)
    (found : Nat) : List Export → Checked Nat
  | [] => .ok found
  | e :: rest => do
    if e.kind == source.kind then
      -- an export name outside the string table is an index out of bounds, not a mismatch
      let exported ← demandSome target.strings[e.name]? .panics
      if exported == name then
        if ← a.signaturesMatch fuel moduleId source.expectedSignature source.targetModule
            e.signature then
          if found = 1 then .ok 2
          else countMatches fuel moduleId source target name (found + 1) rest
        else countMatches fuel moduleId source target name found rest
      else countMatches fuel moduleId source target name found rest
    else countMatches fuel moduleId source target name found rest

def resolveImport (fuel moduleId : Nat) (source : Import) : Checked Unit := do
  let target ← demandSome a.modules[source.targetModule]? .panics
  demand (source.targetHash == target.semanticHash)
    (symbolFailure moduleId "import target semantic hash does not match")
  let name ← demandSome (a.moduleAt moduleId).strings[source.targetName]? .panics
  let matching ← a.countMatches fuel moduleId source target name 0 target.exports
  demand (matching == 1) (symbolFailure moduleId "import does not resolve to exactly one export")

def resolveImportsAndExports (fuel : Nat) (order : List Nat) : Checked Unit :=
  checkAll (fun moduleId => checkAll (a.resolveImport fuel moduleId) (a.moduleAt moduleId).imports) order

/-! ## Nominal types -/

variable (moduleId : Nat)

/-- The number of types before a module. -/
def typePrefix : Nat := ((a.modules.take moduleId).map (·.types.length)).sum

def globalType (identity : TypeIdentity) : Nat := a.typePrefix identity.1 + identity.2

def isInline (identity : TypeIdentity) : Bool :=
  match a.typeAt identity with
  | some (.inlineValue _) => true
  | _ => false

/-- Inline values name inline types, references do not. -/
def checkValue (value : ValueType) : Checked Unit := do
  if value.kind == 7 || value.kind == 8 then
    let identity ← demandSome (a.resolvedType moduleId value.nominalType)
      (nominalFailure moduleId "nominal value type does not resolve")
    demand ((value.kind == 8) == a.isInline identity &&
        !(value.kind == 8 && a.header.runtimeMinor < 15))
      (nominalFailure moduleId
        "inline and managed reference representations must match their nominal type")
  else .ok ()

/-- The value types that a nominal type is made of. -/
def parts : NominalType → List ValueType
  | .inlineValue t => t.components
  | .arrayType t => [t.element]
  | .functionType t => t.result :: t.parameters
  | _ => []

/-- Shape checks that do not concern inheritance. -/
def checkShape : NominalType → Checked Unit
  | .arrayType t => do
    if t.storage ≠ 0 then
      demand (!(a.header.runtimeMinor < 14))
        (nominalFailure moduleId "explicit array storage requires Runtime ABI 1.14")
      demand (t.storage ≤ 6 && t.element.kind == (if t.storage = 6 then 2 else 1))
        (nominalFailure moduleId "array storage does not match element scalar kind")
    demand (t.element.kind != 8)
      (nominalFailure moduleId "heap arrays require boxed inline elements")
  | .inlineValue _ =>
    demand (!(a.header.runtimeMinor < 15))
      (nominalFailure moduleId "inline layouts require Runtime ABI 1.15")
  | _ => .ok ()

def superclass (moduleId : Nat) (reference : TypeId) : Checked (List Nat) :=
  if reference = absentId then .ok []
  else do
    let target ← demandSome (a.resolvedType moduleId reference)
      (nominalFailure moduleId "superclass reference does not resolve")
    match a.typeAt target with
    | some (.classType _) => .ok [a.globalType target]
    | _ => .error (nominalFailure moduleId "superclass is not a class")

def superInterface (reference : TypeId) : Checked (List Nat) :=
  if reference = absentId then .ok []
  else do
    let target ← demandSome (a.resolvedType moduleId reference)
      (nominalFailure moduleId "interface parent does not resolve")
    match a.typeAt target with
    | some (.interfaceType _) => .ok [a.globalType target]
    | _ => .error (nominalFailure moduleId "interface parent is not an interface")

def addInterfaces (interfaces : List TypeId) : Checked (List Nat) :=
  interfaces.mapM fun reference => do
    let target ← demandSome (a.resolvedType moduleId reference)
      (nominalFailure moduleId "interface reference does not resolve")
    match a.typeAt target with
    | some (.interfaceType _) => .ok (a.globalType target)
    | _ => .error (nominalFailure moduleId "implemented type is not an interface")

/-- The members of a range belong to the type. -/
def verifyOwnedRange (moduleId typeId start count : Nat) (owners : List TypeId) : Checked Unit := do
  demand (start + count ≤ owners.length)
    (nominalFailure moduleId "owned member range is out of bounds")
  checkAll (fun owner => demand (owner == typeId)
    (nominalFailure moduleId "owned member range contains a different owner"))
    ((owners.drop start).take count)

/-- A class initializer is a static function without parameters and results that does not wait. -/
def verifyInitializer (moduleId typeId initializer : Nat) : Checked Unit := do
  let module := a.moduleAt moduleId
  let function ← demandSome module.functions[initializer]?
    (nominalFailure moduleId "class initializer does not resolve")
  let validSignature := match (a.resolvedType moduleId function.signature).bind a.typeAt with
    | some (.functionType t) => t.flags == 0 && t.result.kind == 0 && t.parameters.isEmpty
    | _ => false
  demand (function.owner == typeId && function.flags &&& 0b1011 == 0b0010 &&
      function.parameterCount == 0 && validSignature)
    (nominalFailure moduleId "class initializer signature or owner is invalid")
  demand (function.firstBlock + function.blockCount ≤ module.code.length)
    (nominalFailure moduleId "class initializer block range does not resolve")
  let waits := ((module.code.drop function.firstBlock).take function.blockCount).any fun code =>
    code.instructions.any fun
      | .callSuspend .. | .capabilityCallAsync .. => true
      | _ => false
  demand (!waits) (nominalFailure moduleId "class initializer contains an asynchronous operation")

/-- A class without state, supertypes and, before ABI 1.10, methods. -/
def isStatelessRoot : NominalType → Bool
  | .classType t => t.flags == 0 && t.genericArity == 0 && t.fieldCount == 0 &&
      t.initializer.isNone && t.superType == absentId && t.interfaces.isEmpty &&
      (t.methodCount == 0 || 10 ≤ a.header.runtimeMinor)
  | _ => false

/-- The inheritance edges of a type, and the checks of its members. -/
def inheritance (moduleId typeId : Nat) : NominalType → Checked (List Nat)
  | .classType t => do
    let module := a.moduleAt moduleId
    demand (t.flags &&& 0b11 != 0b11)
      (nominalFailure moduleId "class cannot be both abstract and final")
    let parent ← a.superclass moduleId t.superType
    let interfaces ← a.addInterfaces moduleId t.interfaces
    verifyOwnedRange moduleId typeId t.fieldStart t.fieldCount (module.fields.map Field.owner)
    verifyOwnedRange moduleId typeId t.methodStart t.methodCount (module.functions.map Function.owner)
    match t.initializer with
    | some initializer => do
      a.verifyInitializer moduleId typeId initializer
      return parent ++ interfaces
    | none => return parent ++ interfaces
  | .interfaceType t => do
    let parent ← a.superInterface moduleId t.superType
    let interfaces ← a.addInterfaces moduleId t.interfaces
    verifyOwnedRange moduleId typeId t.methodStart t.methodCount ((a.moduleAt moduleId).functions.map Function.owner)
    return parent ++ interfaces
  | .arrayType t =>
    match t.superType with
    | none => .ok []
    | some parent => do
      demand (!(a.header.runtimeMajor < 1 || (a.header.runtimeMajor == 1 && a.header.runtimeMinor < 7)))
        (nominalFailure moduleId "array superclass requires Runtime ABI 1.7")
      let target ← demandSome (a.resolvedType moduleId parent)
        (nominalFailure moduleId "array superclass does not resolve")
      demand (((a.typeAt target).map a.isStatelessRoot).getD false)
        (nominalFailure moduleId "array superclass must be a stateless root class")
      return [a.globalType target]
  | _ => .ok []

def verifyType (moduleId typeId : Nat) (nominal : NominalType) : Checked (List Nat) := do
  checkAll (a.checkValue moduleId) (parts nominal)
  a.checkShape moduleId nominal
  a.inheritance moduleId typeId nominal

def verifyField (field : Field) : Checked Unit := do
  demand (field.valueType.kind != 8)
    (nominalFailure moduleId "heap fields require boxed inline values")
  let owner ← demandSome (a.resolvedType moduleId field.owner)
    (nominalFailure moduleId "field owner does not resolve")
  match a.typeAt owner with
  | some (.classType _) => .ok ()
  | _ => .error (nominalFailure moduleId "field owner is not a class")

/-- The types of one module; gives the inheritance edges of each. -/
def verifyModuleTypes : Checked (List (List Nat)) := do
  let module := a.moduleAt moduleId
  checkAll (fun function : Function =>
    checkAll (fun value : FunctionValue => a.checkValue moduleId value.semanticType) function.values)
    module.functions
  checkAll (fun field : Field => a.checkValue moduleId field.valueType) module.fields
  let edges ← module.types.zipIdx.mapM fun (nominal, typeId) => a.verifyType moduleId typeId nominal
  checkAll (a.verifyField moduleId) module.fields
  return edges

/-- The module that a type of the whole graph belongs to. -/
def moduleOfType (node : Nat) : Nat :=
  ((List.range a.modules.length).find? fun moduleId =>
    a.typePrefix moduleId ≤ node && node < a.typePrefix (moduleId + 1)).getD 0

def rejectTypeCycles (edges : List (List Nat)) : Checked Unit :=
  match dfs edges with
  | .ok _ => .ok ()
  | .error (.cycle node) =>
    .error (nominalFailure (min (a.moduleOfType node) (a.modules.length - 1))
      "nominal type graph contains a cycle")
  | .error (.outOfRange _) => .error .panics
  | .error .outOfFuel => .error .diverges

def verifyNominalTypes : Checked Unit := do
  let edges ← (List.range a.modules.length).mapM a.verifyModuleTypes
  a.rejectTypeCycles edges.flatten

def verifyModules (fuel : Nat) (digests : Digests) : Checked Unit := do
  checkAll (a.verifyDigest digests) (List.range a.modules.length)
  let order ← a.topologicalModuleOrder
  a.resolveImportsAndExports fuel order
  a.verifyNominalTypes

end DecodedArtifact

end Compukter
