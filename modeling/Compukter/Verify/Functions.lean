/-
The function pass of the verifier: the shape of inline values, signatures, and the code of every
function that has code.

`verifyDecoded` is the whole verifier on decoded tables, in the order in which it runs its passes.
-/
import Compukter.Verify.Exceptions

namespace Compukter

open Fallible

namespace DecodedArtifact

variable (a : DecodedArtifact)

/-- Where the checks of a function run before its signature is known. -/
def unsignedSite (fuel moduleId functionId : Nat) (function : Function) : Site :=
  ⟨a, fuel, moduleId, functionId, function, moduleId, ⟨0, 0, absentId⟩⟩

/-! ## Inline values -/

/-- The atom that holds a component of an inline value; the other kinds have none. -/
def componentAtom (semantic : ValueType) : Option PhysicalAtom :=
  match semantic.kind with
  | 1 | 5 | 6 => some .i32
  | 2 => some .i64
  | 3 => some .f32
  | 4 => some .f64
  | 7 => some .ref32
  | _ => none

def verifyInlineShape (site : Site) (value : FunctionValue) : Checked Unit :=
  if value.semanticType.kind = 8 then do
    let (_, layout) ← (site.inlineLayout value.semanticType).result
    demand (value.components.map some == layout.map componentAtom)
      (site.typeFailure "inline physical shape differs from nominal layout")
  else .ok ()

/-! ## Signatures -/

/-- The module of the signature, and the function type that it is. -/
def verifySignature (fuel moduleId functionId : Nat) (function : Function) :
    Checked (Nat × FunctionType) := do
  let site := a.unsignedSite fuel moduleId functionId function
  demand (function.registerCount == function.values.length &&
      function.parameterCount ≤ function.registerCount)
    (site.typeFailure "function register or parameter count is inconsistent")
  let identity ← demandSome (a.resolvedType moduleId function.signature)
    (site.typeFailure "function signature does not resolve")
  match a.typeAt identity with
  | some (.functionType t) => do
    demand (function.flags &&& 1 == t.flags &&& 1 && t.parameters.length == function.parameterCount)
      (site.typeFailure "function flags or parameter count disagree with signature")
    checkAll (fun (register, parameter) =>
      (site.ensureMatch moduleId register identity.1 parameter
        "parameter register type disagrees with signature").result)
      ((function.values.map FunctionValue.semanticType).zip t.parameters)
    return (identity.1, t)
  | _ => .error (site.typeFailure "function signature is not a function type")

/-! ## Functions -/

def isEntry (moduleId functionId : Nat) : Bool :=
  moduleId == a.header.entryModule && functionId == a.header.entryFunction

/-- The blocks of a function that is not abstract. -/
def verifyBody (site : Site) (handlers : List Handler) : Checked Unit := do
  let successors ← verifyControlFlow (site.artifact.moduleAt site.moduleId) site.moduleId
    site.functionId site.function (handlers.map Handler.handlerBlock)
  (site.verifyDataflow successors handlers).mapError site.stopRejection

def verifyFunction (fuel : Nat) (exceptions : List (List (List Handler))) (moduleId functionId : Nat)
    (function : Function) : Checked Unit := do
  let site := a.unsignedSite fuel moduleId functionId function
  checkAll (verifyInlineShape site) function.values
  let (signatureModule, signature) ← a.verifySignature fuel moduleId functionId function
  if function.isAbstract then
    demand (function.blockCount == 0 && !a.isEntry moduleId functionId)
      (controlFailure moduleId functionId "abstract function has blocks or is the entry")
  else
    let handlers ← demandSome ((exceptions[moduleId]?).bind (·[functionId]?)) .panics
    verifyBody { site with signatureModule := signatureModule, result := signature.result } handlers

def verifyFunctions (fuel : Nat) (exceptions : List (List (List Handler))) : Checked Unit := do
  demand (!(a.manifest.minimumSliceCost < a.manifest.maximumBlockCost))
    (.diagnostic ⟨.cost, .badCost, some 0, some 0, "minimum slice cost is below maximum block cost"⟩)
  demand (((a.modules[a.header.entryModule]?).bind (·.functions[a.header.entryFunction]?)).isSome)
    (controlFailure a.header.entryModule a.header.entryFunction "entry function is out of range")
  checkAll (fun (m, moduleId) =>
    checkAll (fun (function, functionId) => a.verifyFunction fuel exceptions moduleId functionId function)
      m.functions.zipIdx) a.modules.zipIdx

/-! ## The entry -/

/-- One parameter, a non-null array of non-null strings. -/
def isStringArray (signatureModule : Nat) (parameter : ValueType) : Checked Bool :=
  if parameter.kind == 7 && parameter.flags == 0 then
    match a.resolvedType signatureModule parameter.nominalType with
    | none => .ok false
    | some array =>
      match a.typeAt array with
      | some (.arrayType t) =>
        if t.element.kind == 7 && t.element.flags == 0 then
          match a.resolvedType array.1 t.element.nominalType with
          | none => .ok false
          | some string =>
            match a.typeAt string with
            | some (.classType t) => do
              let name ← demandSome (a.moduleAt string.1).strings[t.name]? .panics
              return name == kotlinString
            | _ => .ok false
        else .ok false
      | _ => .ok false
  else .ok false

def entryArgumentsMatch (signatureModule : Nat) (parameters : List ValueType) : Checked Bool :=
  match a.header.entryArguments, parameters with
  | .none, _ => .ok parameters.isEmpty
  | .stringArray, [parameter] => a.isStringArray signatureModule parameter
  | .stringArray, _ => .ok false

def verifyEntryArguments (fuel : Nat) : Checked Unit := do
  let failure := fun detail => Rejection.diagnostic
    ⟨.type, .badType, some a.header.entryModule, some a.header.entryFunction, detail⟩
  let function ← demandSome
    ((a.modules[a.header.entryModule]?).bind (·.functions[a.header.entryFunction]?))
    (failure "entry function is out of range")
  let (signatureModule, signature) ←
    a.verifySignature fuel a.header.entryModule a.header.entryFunction function
  demand (signature.result.kind != 8)
    (failure "entry argument contract disagrees with the entry function signature")
  let agree ← a.entryArgumentsMatch signatureModule signature.parameters
  demand agree (failure "entry argument contract disagrees with the entry function signature")

/-! ## The verifier -/

/-- **The passes of `verify_artifact` after decoding.** -/
def verifyDecoded (fuel : Nat) (digests : Digests) : Checked Unit := do
  a.verifyModules fuel digests
  let exceptions ← a.verifyExceptions fuel
  a.verifyFunctions fuel exceptions
  a.verifyEntryArguments fuel
  a.verifySemanticFeatures

end DecodedArtifact

end Compukter
