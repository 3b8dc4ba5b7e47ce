/-
Type references and type comparison in the verifier.

A type reference of a module names a type of the module itself or, through an import, the first
exported type of another module with the imported name (`resolvedType`).

The comparisons `valueTypesMatch` and `valueAssignable` recurse through the element types of arrays
and nothing bounds that recursion, so they take fuel: `diverges` when it runs out.
-/
import Compukter.Artifact.Instruction

namespace Compukter

/-- A module table without entries. -/
def DecodedModule.empty : DecodedModule :=
  ⟨0, 0, [], [], [], [], [], [], [], [], [], [], [], [], []⟩

/-- The identity of a nominal type: module and index. -/
abbrev TypeIdentity := Nat × Nat

namespace DecodedArtifact

variable (a : DecodedArtifact)

/-- The verifier only indexes modules that exist. -/
def moduleAt (moduleId : Nat) : DecodedModule := (a.modules[moduleId]?).getD .empty

def typeAt (identity : TypeIdentity) : Option NominalType :=
  (a.moduleAt identity.1).types[identity.2]?

/-! ## Resolution -/

def kotlinString : List UInt8 := "kotlin.String".toUTF8.toList

/-- The public type exports of library modules that are called `kotlin.String`. -/
def stringCandidates : List (Nat × Nat) :=
  a.modules.zipIdx.flatMap fun (module, moduleId) =>
    if module.flags = 2 then
      module.exports.filterMap fun e =>
        if e.kind = 0 ∧ e.visibility = 1 ∧ module.strings[e.name]? = some kotlinString then
          some (moduleId, e.localSymbol)
        else none
    else []

/-- The first export of the kind with the name. -/
def exportNamed (target : DecodedModule) (kind : Nat) (name : List UInt8) : Option Export :=
  target.exports.find? fun e => e.kind == kind && target.strings[e.name]? == some name

def resolvedType (moduleId : Nat) (reference : TypeId) : Option TypeIdentity :=
  if reference = absentId then none
  else if reference &&& importBit = 0 then
    if reference < (a.moduleAt moduleId).types.length then some (moduleId, reference) else none
  else do
    let found ← (a.moduleAt moduleId).imports[reference &&& 0x7fffffff]?
    if found.kind ≠ 0 then none
    else
      let target ← a.modules[found.targetModule]?
      let sourceName ← (a.moduleAt moduleId).strings[found.targetName]?
      let named ← exportNamed target 0 sourceName
      if named.localSymbol < target.types.length then
        some (found.targetModule, named.localSymbol)
      else none

/-! ## Equality of value types -/

def valueTypesMatch : Nat → Nat → ValueType → Nat → ValueType → Checked Bool
  | 0, _, _, _, _ => .error .diverges
  | fuel + 1, leftModule, left, rightModule, right =>
    if left.kind == right.kind && left.flags == right.flags then
      if left.kind == 7 || left.kind == 8 then
        match a.resolvedType leftModule left.nominalType,
            a.resolvedType rightModule right.nominalType with
        | some leftIdentity, some rightIdentity =>
          match a.typeAt leftIdentity, a.typeAt rightIdentity with
          | some (.arrayType leftArray), some (.arrayType rightArray) =>
            if leftArray.storage == rightArray.storage then
              valueTypesMatch fuel leftIdentity.1 leftArray.element rightIdentity.1 rightArray.element
            else .ok false
          | _, _ => .ok (leftIdentity == rightIdentity)
        | _, _ => .ok false
      else .ok true
    else .ok false

/-- `all` over the zipped lists: stops at the first pair that differs. -/
def allMatch (fuel leftModule : Nat) (rightModule : Nat) :
    List (ValueType × ValueType) → Checked Bool
  | [] => .ok true
  | (left, right) :: rest => do
    if ← valueTypesMatch a fuel leftModule left rightModule right then
      allMatch fuel leftModule rightModule rest
    else return false

def signaturesMatch (fuel leftModule left rightModule right : Nat) : Checked Bool :=
  match a.resolvedType leftModule left, a.resolvedType rightModule right with
  | some leftIdentity, some rightIdentity =>
    match a.typeAt leftIdentity, a.typeAt rightIdentity with
    | some (.functionType leftType), some (.functionType rightType) =>
      if leftType.flags == rightType.flags then do
        if ← valueTypesMatch a fuel leftIdentity.1 leftType.result rightIdentity.1
            rightType.result then
          if leftType.parameters.length == rightType.parameters.length then
            allMatch a fuel leftIdentity.1 rightIdentity.1 (leftType.parameters.zip rightType.parameters)
          else return false
        else return false
      else .ok false
    | _, _ => .ok (leftIdentity == rightIdentity)
  | _, _ => .ok false

/-! ## Assignability -/

/-- The direct supertypes of a type, in the order in which the search pushes them. -/
def parents (identity : TypeIdentity) : List TypeIdentity :=
  let resolve := a.resolvedType identity.1
  match a.typeAt identity with
  | some (.classType t) =>
    (if t.superType = absentId then [] else (resolve t.superType).toList) ++ t.interfaces.filterMap resolve
  | some (.interfaceType t) =>
    (if t.superType = absentId then [] else (resolve t.superType).toList) ++ t.interfaces.filterMap resolve
  | some (.arrayType t) => ((t.superType).bind resolve).toList
  | _ => []

/-- The search of `nominal_assignable`; the head of the list is the top of its stack. -/
def nominalSearch (destination : TypeIdentity) :
    Nat → List TypeIdentity → List TypeIdentity → Checked Bool
  | 0, _, _ => .error .diverges
  | _ + 1, [], _ => .ok false
  | fuel + 1, identity :: stack, visited =>
    if identity = destination then .ok true
    else if visited.contains identity then nominalSearch destination fuel stack visited
    else
      nominalSearch destination fuel ((a.parents identity).reverse ++ stack) (identity :: visited)

/-- Every type is expanded once, and each of its supertypes pushed once. -/
def nominalFuel : Nat :=
  2 + (a.modules.flatMap DecodedModule.types).foldr
    (fun t total => total + 2 + match t with
      | .classType t | .interfaceType t => t.interfaces.length
      | _ => 0) 0

def nominalAssignable (source destination : TypeIdentity) : Checked Bool :=
  a.nominalSearch destination a.nominalFuel [source] []

def valueAssignable : Nat → Nat → ValueType → Nat → ValueType → Checked Bool
  | 0, _, _, _, _ => .error .diverges
  | fuel + 1, sourceModule, source, destinationModule, destination =>
    if source.kind == destination.kind then
      if source.kind == 7 then
        if source.flags &&& 1 == 0 || destination.flags &&& 1 != 0 then
          match a.resolvedType sourceModule source.nominalType,
              a.resolvedType destinationModule destination.nominalType with
          | some s, some d =>
            match a.typeAt s, a.typeAt d with
            | some (.arrayType sourceArray), some (.arrayType destinationArray) =>
              if sourceArray.storage == destinationArray.storage then do
                -- arrays are invariant: their elements are assignable both ways
                if ← valueAssignable fuel s.1 sourceArray.element d.1 destinationArray.element then
                  valueAssignable fuel d.1 destinationArray.element s.1 sourceArray.element
                else return false
              else .ok false
            | _, _ => a.nominalAssignable s d
          | _, _ => .ok false
        else .ok false
      else if source.kind == 8 then
        match a.resolvedType sourceModule source.nominalType,
            a.resolvedType destinationModule destination.nominalType with
        | some s, some d => .ok (s == d)
        | _, _ => .ok false
      else .ok true
    else .ok false

end DecodedArtifact

end Compukter
