/-
The verifier's check of a single instruction.

`verifyInstruction` is a script: registers are read and written in the order of the source, and every
other check stands between them.  A check reports against the `Site` it runs at: the artifact, and the
function whose code it is in.
-/
import Compukter.Verify.Types
import Compukter.Lib.Script

namespace Compukter

abbrev Check := Script Rejection

def reject {α : Type} (r : Rejection) : Check α := .check (.error r)

def ensure (condition : Bool) (r : Rejection) : Check Unit :=
  if condition then pure () else reject r

def require {α : Type} (value : Option α) (r : Rejection) : Check α :=
  match value with
  | some v => pure v
  | none => reject r

/-- Where a check of a function runs; `fuel` bounds its type comparisons. -/
structure Site where
  artifact : DecodedArtifact
  (fuel moduleId functionId : Nat)
  function : Function
  signatureModule : Nat
  result : ValueType

inductive CallKind
  | direct | virtual | interface | suspend
  deriving DecidableEq

namespace Site

variable (c : Site)

/-! ## Failures -/

def failure (family : Family) (code : Code) (detail : String) : Rejection :=
  .diagnostic ⟨family, code, some c.moduleId, some c.functionId, detail⟩

def typeFailure (detail : String) : Rejection := c.failure .type .badType detail

def codeFailure (detail : String) : Rejection := c.failure .code .badInstruction detail

def capabilityFailure (detail : String) : Rejection := c.failure .capability .badCapability detail

/-! ## Registers -/

def registerType (register : Nat) : Check ValueType :=
  match c.function.values[register]? with
  | some value => pure value.semanticType
  | none => reject (c.failure .register .badInstruction "register is out of range")

def read (register : Nat) : Check Unit := do
  let _ ← c.registerType register
  .access (.read register)

def write (register : Nat) : Check Unit := do
  let _ ← c.registerType register
  .access (.write register)

def requireKind (register kind : Nat) : Check ValueType := do
  let value ← c.registerType register
  ensure (value.kind == kind) (c.typeFailure "register has the wrong value kind")
  return value

/-! ## Types -/

def resolved (reference : TypeId) : Option TypeIdentity :=
  c.artifact.resolvedType c.moduleId reference

def ensureMatch (leftModule : Nat) (left : ValueType) (rightModule : Nat) (right : ValueType)
    (detail : String) : Check Unit := do
  let same ← .check (c.artifact.valueTypesMatch c.fuel leftModule left rightModule right)
  ensure same (c.typeFailure detail)

def ensureAssignable (sourceModule : Nat) (source : ValueType) (destinationModule : Nat)
    (destination : ValueType) (detail : String) : Check Unit := do
  let fits ← .check
    (c.artifact.valueAssignable c.fuel sourceModule source destinationModule destination)
  ensure fits (c.typeFailure detail)

def resolveTypeOperand (reference : TypeId) : Check TypeIdentity :=
  require (c.resolved reference) (c.typeFailure "type operand does not resolve")

/-- The layout of an inline value type and the module it is declared in. -/
def inlineLayout (value : ValueType) : Check (Nat × List ValueType) := do
  ensure (value.kind == 8 && !(c.artifact.header.runtimeMinor < 15))
    (c.typeFailure "inline values require Runtime ABI 1.15")
  let identity ← require (c.resolved value.nominalType)
    (c.typeFailure "inline nominal type does not resolve")
  match c.artifact.typeAt identity with
  | some (.inlineValue t) => return (identity.1, t.components)
  | _ => reject (c.typeFailure "inline value does not name an inline layout")

def requireReferenceDestination (dst : Nat) (identity : TypeIdentity) : Check Unit := do
  let destination ← c.requireKind dst 7
  c.ensureAssignable identity.1 ⟨7, 0, identity.2⟩ c.moduleId destination
    "reference destination has an incompatible nominal type"

/-! ## Strings -/

def resolveStringType : Check TypeIdentity :=
  match c.artifact.stringCandidates with
  | [] => reject (c.typeFailure "artifact has no public kotlin.String type")
  | [identity] =>
    match c.artifact.typeAt identity with
    | some (.classType t) => do
      ensure (t.flags &&& 1 == 0 && t.flags &&& 2 != 0 && t.fieldCount == 0)
        (c.typeFailure "kotlin.String must be final, concrete, and fieldless")
      return identity
    | _ => reject (c.typeFailure "kotlin.String export does not resolve to a class")
  | _ => reject (c.typeFailure "artifact has more than one public kotlin.String type")

def requireString (register : Nat) : Check Unit := do
  let value ← c.registerType register
  let expected ← c.resolveStringType
  ensure (value.kind == 7 && value.flags &&& 1 == 0 && c.resolved value.nominalType == some expected)
    (c.typeFailure "register is not the non-null standard-library String type")

/-! ## Symbols -/

/-- The first export that agrees with an import in kind, name and signature. -/
def exportMatching (moduleId : Nat) (found : Import) (kind : Nat) (target : DecodedModule)
    (name : List UInt8) : List Export → Checked (Option Export)
  | [] => .ok none
  | e :: rest =>
    if e.kind == kind && target.strings[e.name]? == some name then do
      if ← c.artifact.signaturesMatch c.fuel moduleId found.expectedSignature found.targetModule
          e.signature then
        return some e
      else exportMatching moduleId found kind target name rest
    else exportMatching moduleId found kind target name rest

def resolveSymbol (reference kind : Nat) : Check (Nat × Nat) := do
  ensure (reference != absentId) (c.codeFailure "symbol reference uses the absent sentinel")
  if reference &&& importBit = 0 then return (c.moduleId, reference)
  else
    let source := c.artifact.moduleAt c.moduleId
    let found ← require source.imports[reference &&& 0x7fffffff]?
      (c.codeFailure "import reference is out of range")
    ensure (found.kind == kind) (c.typeFailure "import reference has the wrong symbol kind")
    let target ← require c.artifact.modules[found.targetModule]?
      (c.codeFailure "import target module is out of range")
    let sourceName ← require source.strings[found.targetName]?
      (c.codeFailure "import target name is out of range")
    let matching ← .check (c.exportMatching c.moduleId found kind target sourceName target.exports)
    let e ← require matching (c.codeFailure "imported symbol does not resolve")
    return (found.targetModule, e.localSymbol)

def resolveFunction (reference : Nat) : Check (Nat × Function) := do
  let (targetModule, symbol) ← c.resolveSymbol reference 1
  let f ← require (c.artifact.moduleAt targetModule).functions[symbol]?
    (c.codeFailure "function reference is out of range")
  return (targetModule, f)

def resolveField (reference : Nat) : Check (Nat × Field) := do
  let (targetModule, symbol) ← c.resolveSymbol reference 2
  let f ← require (c.artifact.moduleAt targetModule).fields[symbol]?
    (c.codeFailure "field reference is out of range")
  return (targetModule, f)

def verifyCapability (capability operation : Nat) : Check Unit := do
  let descriptor ← require c.artifact.capabilities[capability]?
    (c.capabilityFailure "capability id is out of range")
  ensure (!(descriptor.operationCount ≤ operation))
    (c.capabilityFailure "capability operation id is out of range")

/-! ## Operands with structure -/

/-- The element type of an array operand and the module that declares it. -/
def arrayElement (array : Nat) : Check (Nat × ValueType) := do
  c.read array
  let arrayType ← c.requireKind array 7
  ensure (arrayType.flags &&& 1 == 0) (c.typeFailure "array receiver is nullable")
  let identity ← require (c.resolved arrayType.nominalType)
    (c.typeFailure "array type does not resolve")
  match c.artifact.typeAt identity with
  | some (.arrayType t) => return (identity.1, t.element)
  | _ => reject (c.typeFailure "array register is not an array type")

/-- The storage of an array operand. -/
def arrayStorage (register : Nat) : Option Nat := do
  let value ← c.function.values[register]?
  let identity ← c.resolved value.semanticType.nominalType
  match c.artifact.typeAt identity with
  | some (.arrayType t) => some t.storage
  | _ => none

def verifyReceiver (receiver ownerModule : Nat) (owner : TypeId) : Check Unit := do
  c.read receiver
  let receiverType ← c.requireKind receiver 7
  ensure (receiverType.flags &&& 1 == 0) (c.typeFailure "field receiver is nullable")
  c.ensureAssignable c.moduleId receiverType ownerModule ⟨7, 0, owner⟩
    "field receiver has an incompatible type"

/-- The arguments of a call against the signature of its target; gives the declared result. -/
def verifyCallArguments (targetModule : Nat) (target : Function) (args : List Nat) :
    Check (Nat × ValueType) := do
  let identity ← require (c.artifact.resolvedType targetModule target.signature)
    (c.typeFailure "call target signature does not resolve")
  match c.artifact.typeAt identity with
  | some (.functionType t) => do
    ensure (args.length == t.parameters.length)
      (c.typeFailure "call argument count disagrees with signature")
    Script.each (fun (argument, parameter) => do
      c.read argument
      let argumentType ← c.registerType argument
      c.ensureAssignable c.moduleId argumentType identity.1 parameter
        "call argument type disagrees with signature") (args.zip t.parameters)
    return (identity.1, t.result)
  | _ => reject (c.typeFailure "call target signature is not a function type")

/-- What a call instruction demands of its target besides the signature. -/
def verifyCallKind (targetModule : Nat) (target : Function) : CallKind → Check Unit
  | .direct => do
    ensure (target.flags &&& 8 == 0) (c.typeFailure "direct call targets an abstract function")
    ensure (target.flags &&& 1 == 0) (c.typeFailure "call_direct targets a suspending function")
  | .virtual =>
    ensure (target.flags &&& 4 != 0) (c.typeFailure "call_virtual target is not virtual")
  | .interface => do
    let owner ← require (c.artifact.resolvedType targetModule target.owner)
      (c.typeFailure "interface call owner does not resolve")
    match c.artifact.typeAt owner with
    | some (.interfaceType _) => pure ()
    | _ => reject (c.typeFailure "call_interface target owner is not an interface")
  | .suspend =>
    ensure (target.flags &&& 1 != 0) (c.typeFailure "call_suspend target is not suspending")

def verifyCall (dst reference : Nat) (args : List Nat) (kind : CallKind) : Check Unit := do
  let (targetModule, target) ← c.resolveFunction reference
  c.verifyCallKind targetModule target kind
  let (resultModule, result) ← c.verifyCallArguments targetModule target args
  if result.kind = 0 then
    ensure (dst == absentRegister) (c.typeFailure "unit call has a destination register")
  else
    ensure (dst != absentRegister) (c.typeFailure "non-unit call omits its destination")
    let destination ← c.registerType dst
    c.ensureAssignable resultModule result c.moduleId destination
      "call result is not assignable to destination"
    c.write dst

/-! ## Families of instructions -/

def constantAssignable (constant : Constant) (destination : ValueType) : Bool :=
  match constant with
  | .i32 _ => destination.kind == 1
  | .i64 _ => destination.kind == 2
  | .f32 _ => destination.kind == 3
  | .f64 _ => destination.kind == 4
  | .bool _ => destination.kind == 5
  | .char _ => destination.kind == 6
  | .string _ => destination.kind == 7
  | .null => destination.kind == 7 && destination.flags &&& 1 != 0

def numeric (kind : Nat) : Bool := 1 ≤ kind && kind ≤ 4

def convertible (source destination : Nat) : Bool :=
  numeric source && numeric destination || (source == 1 && destination == 6) || (source == 6 && destination == 1)

/-- Unsigned forms work on the signed kinds of the same width. -/
def numericFormKind (form : Nat) : Nat :=
  if form = 8 then 1 else if form = 9 then 2 else form

/-- Arithmetic and bit operations; the right operand of a shift is an `Int`. -/
def verifyArithmetic (form dst lhs rhs : Nat) (shift : Bool) : Check Unit := do
  c.read lhs
  c.read rhs
  let _ ← c.requireKind dst (numericFormKind form)
  let _ ← c.requireKind lhs (numericFormKind form)
  let _ ← c.requireKind rhs (if shift then 1 else numericFormKind form)
  c.write dst

def verifyComparison (form dst lhs rhs : Nat) : Check Unit := do
  c.read lhs
  c.read rhs
  let _ ← c.requireKind lhs (numericFormKind form)
  let _ ← c.requireKind rhs (numericFormKind form)
  let _ ← c.requireKind dst 5
  c.write dst

def verifyRefComparison (dst lhs rhs : Nat) : Check Unit := do
  c.read lhs
  c.read rhs
  let left ← c.requireKind lhs 7
  let right ← c.requireKind rhs 7
  let header := c.artifact.header
  ensure (c.resolved left.nominalType == c.resolved right.nominalType ||
      !(header.runtimeMajor < 1 || (header.runtimeMajor == 1 && header.runtimeMinor < 6)))
    (c.typeFailure "heterogeneous reference comparison requires Runtime ABI 1.6")
  let _ ← c.requireKind dst 5
  c.write dst

/-- Two string operands and a result of the given kind. -/
def verifyStringPair (dst lhs rhs kind : Nat) : Check Unit := do
  c.read lhs
  c.read rhs
  c.requireString lhs
  c.requireString rhs
  let _ ← c.requireKind dst kind
  c.write dst

/-- Host calls, synchronous and asynchronous. -/
def verifyCapabilityCall (dst capability operation : Nat) (args : List Nat) : Check Unit := do
  c.verifyCapability capability operation
  Script.each c.read args
  if dst = absentRegister then pure ()
  else
    let value ← c.registerType dst
    ensure (!(value.kind == 8 && c.artifact.header.runtimeMinor < 20))
      (c.typeFailure "inline host responses require Runtime ABI 1.20")
    c.write dst

/-- A matrix operand: an inline value of `count` scalars of the operation's kind. -/
def verifyMatrixOperand (operation : MatrixOperation) (register count : Nat) : Check Unit := do
  let value ← c.registerType register
  let (_, layout) ← c.inlineLayout value
  ensure (layout.length == count && layout.all (·.kind == operation.scalarKind))
    (c.typeFailure "matrix math requires exact scalar-width inline layout")

/-! ## All instructions -/

/-- The match of `verify_instruction`. -/
def verifyOperation : Instruction → Check Unit
  | .inlineConstruct dst components => do
    let value ← c.registerType dst
    let (layoutModule, layout) ← c.inlineLayout value
    ensure (components.length == layout.length)
      (c.typeFailure "inline construction component count differs")
    Script.each (fun (source, expected) => do
      c.read source
      let actual ← c.registerType source
      c.ensureMatch c.moduleId actual layoutModule expected
        "inline construction component type differs") (components.zip layout)
    c.write dst
  | .inlineComponent dst src component => do
    c.read src
    let value ← c.registerType src
    let (layoutModule, layout) ← c.inlineLayout value
    let expected ← require layout[component]?
      (c.typeFailure "inline component index is out of range")
    let actual ← c.registerType dst
    c.ensureMatch layoutModule expected c.moduleId actual "inline extraction component type differs"
    c.write dst
  | .nop | .jump _ | .unreachable => pure ()
  | .move dst src => do
    c.read src
    let dstType ← c.registerType dst
    let srcType ← c.registerType src
    c.ensureMatch c.moduleId dstType c.moduleId srcType "move source and destination types differ"
    c.write dst
  | .const dst constant => do
    let value ← require (c.artifact.moduleAt c.moduleId).constants[constant]?
      (c.codeFailure "constant id is out of range")
    let destination ← c.registerType dst
    ensure (constantAssignable value destination)
      (c.typeFailure "constant is not assignable to destination")
    match value with
    | .string _ => c.requireString dst
    | _ => pure ()
    c.write dst
  | .null dst => do
    let destination ← c.registerType dst
    ensure (destination.kind == 7 && destination.flags &&& 1 != 0)
      (c.typeFailure "null destination is not a nullable reference")
    c.write dst
  | .matrixMath operation dst lhs rhs => do
    ensure (!(c.artifact.header.runtimeMinor < operation.runtimeMinor) &&
        rhs.isSome == operation.rightComponents.isSome)
      (c.typeFailure "matrix math requires operation ABI and exact arity")
    c.read lhs
    c.verifyMatrixOperand operation lhs operation.leftComponents
    match rhs with
    | some rhs => do
      c.read rhs
      c.verifyMatrixOperand operation rhs (operation.rightComponents.getD 0)
    | none => pure ()
    c.verifyMatrixOperand operation dst operation.resultComponents
    c.write dst
  | .mathUnary form _ dst src => do
    ensure (!(c.artifact.header.runtimeMinor < 16) && (form == 3 || form == 4))
      (c.typeFailure "floating math requires Runtime ABI 1.16 and F32/F64")
    c.read src
    let _ ← c.requireKind src form
    let _ ← c.requireKind dst form
    c.write dst
  | .mathBinary form _ dst lhs rhs => do
    ensure (!(c.artifact.header.runtimeMinor < 16) && (form == 3 || form == 4))
      (c.typeFailure "floating math requires Runtime ABI 1.16 and F32/F64")
    c.read lhs
    c.read rhs
    let _ ← c.requireKind lhs form
    let _ ← c.requireKind rhs form
    let _ ← c.requireKind dst form
    c.write dst
  | .convert form dst src => do
    c.read src
    let source ← c.registerType src
    let destination ← c.registerType dst
    ensure (!((form != 0 && c.artifact.header.runtimeMinor < 14) ||
        (form &&& 1 != 0 && !(source.kind == 1 || source.kind == 2)) ||
        (form &&& 2 != 0 && !(destination.kind == 1 || destination.kind == 2)) ||
        (form &&& 1 != 0 && destination.kind == 6) ||
        !convertible source.kind destination.kind))
      (c.typeFailure "convert register types are incompatible")
    c.write dst
  | .add form dst lhs rhs | .sub form dst lhs rhs | .mul form dst lhs rhs | .div form dst lhs rhs
  | .rem form dst lhs rhs | .bitAnd form dst lhs rhs | .bitOr form dst lhs rhs
  | .bitXor form dst lhs rhs => c.verifyArithmetic form dst lhs rhs false
  | .shiftLeft form dst lhs rhs | .shiftRight form dst lhs rhs | .shiftUnsigned form dst lhs rhs =>
    c.verifyArithmetic form dst lhs rhs true
  | .neg form dst src => do
    -- the operand is checked against the form itself, the result against its kind
    c.read src
    let _ ← c.requireKind src form
    let _ ← c.requireKind dst (numericFormKind form)
    c.write dst
  | .equal form dst lhs rhs | .notEqual form dst lhs rhs | .less form dst lhs rhs
  | .lessEqual form dst lhs rhs | .greater form dst lhs rhs | .greaterEqual form dst lhs rhs =>
    c.verifyComparison form dst lhs rhs
  | .refEqual dst lhs rhs | .refNotEqual dst lhs rhs => c.verifyRefComparison dst lhs rhs
  | .newObject dst typeRef => do
    let identity ← c.resolveTypeOperand typeRef
    match c.artifact.typeAt identity with
    | some (.classType t) =>
      ensure (t.flags &&& 1 == 0) (c.typeFailure "new_object target is not a concrete class")
    | _ => reject (c.typeFailure "new_object target is not a concrete class")
    c.requireReferenceDestination dst identity
    c.write dst
  | .newArray dst typeRef length => do
    c.read length
    let _ ← c.requireKind length 1
    let identity ← c.resolveTypeOperand typeRef
    match c.artifact.typeAt identity with
    | some (.arrayType _) => pure ()
    | _ => reject (c.typeFailure "new_array target is not an array type")
    c.requireReferenceDestination dst identity
    c.write dst
  | .arrayLength dst array => do
    let _ ← c.arrayElement array
    let _ ← c.requireKind dst 1
    c.write dst
  | .arrayLoad dst array index => do
    let (typeModule, element) ← c.arrayElement array
    c.read index
    let _ ← c.requireKind index 1
    let destination ← c.registerType dst
    c.ensureAssignable typeModule element c.moduleId destination
      "array element is not assignable to destination"
    c.write dst
  | .arrayStore array index value => do
    let (typeModule, element) ← c.arrayElement array
    c.read index
    c.read value
    let _ ← c.requireKind index 1
    let source ← c.registerType value
    c.ensureAssignable c.moduleId source typeModule element "array store value has the wrong type"
  | .arrayCopy source destination sourceStart destinationStart length => do
    let (sourceModule, sourceElement) ← c.arrayElement source
    let (destinationModule, destinationElement) ← c.arrayElement destination
    Script.each (fun register => do
      c.read register
      let _ ← c.requireKind register 1) [sourceStart, destinationStart, length]
    ensure (c.arrayStorage source == c.arrayStorage destination)
      (c.typeFailure "array copy elements are incompatible")
    c.ensureAssignable sourceModule sourceElement destinationModule destinationElement
      "array copy elements are incompatible"
  | .fieldGet dst receiver fieldRef => do
    let (fieldModule, field) ← c.resolveField fieldRef
    ensure (field.flags &&& 2 == 0) (c.typeFailure "field_get names a static field")
    c.verifyReceiver receiver fieldModule field.owner
    let destination ← c.registerType dst
    c.ensureAssignable fieldModule field.valueType c.moduleId destination
      "field value is not assignable to destination"
    c.write dst
  | .fieldSet receiver fieldRef value => do
    let (fieldModule, field) ← c.resolveField fieldRef
    ensure (field.flags &&& 1 != 0 && field.flags &&& 2 == 0)
      (c.typeFailure "field_set requires a mutable instance field")
    c.verifyReceiver receiver fieldModule field.owner
    c.read value
    let source ← c.registerType value
    c.ensureAssignable c.moduleId source fieldModule field.valueType
      "field store value has the wrong type"
  | .staticGet dst fieldRef => do
    let (fieldModule, field) ← c.resolveField fieldRef
    ensure (field.flags &&& 2 != 0) (c.typeFailure "static_get names an instance field")
    let destination ← c.registerType dst
    c.ensureAssignable fieldModule field.valueType c.moduleId destination
      "static field value has the wrong type"
    c.write dst
  | .staticSet fieldRef value => do
    let (fieldModule, field) ← c.resolveField fieldRef
    ensure (field.flags &&& 3 == 3) (c.typeFailure "static_set requires a mutable static field")
    c.read value
    let source ← c.registerType value
    c.ensureAssignable c.moduleId source fieldModule field.valueType
      "static field store has the wrong type"
  | .isType dst value typeRef => do
    c.read value
    let _ ← c.requireKind value 7
    let _ ← c.resolveTypeOperand typeRef
    let _ ← c.requireKind dst 5
    c.write dst
  | .checkedCast dst value typeRef => do
    c.read value
    let _ ← c.requireKind value 7
    let identity ← c.resolveTypeOperand typeRef
    c.requireReferenceDestination dst identity
    c.write dst
  | .callDirect dst functionRef args => c.verifyCall dst functionRef args .direct
  | .callVirtual dst functionRef args => c.verifyCall dst functionRef args .virtual
  | .callInterface dst functionRef args => c.verifyCall dst functionRef args .interface
  | .callSuspend dst functionRef args _ => c.verifyCall dst functionRef args .suspend
  | .coroutineSpawn dst functionRef args => do
    let (targetModule, target) ← c.resolveFunction functionRef
    let _ ← c.verifyCallArguments targetModule target args
    let _ ← c.requireKind dst 1
    c.write dst
  | .capabilityCallSync dst capability operation args =>
    c.verifyCapabilityCall dst capability operation args
  | .capabilityCallAsync dst capability operation args _ =>
    c.verifyCapabilityCall dst capability operation args
  | .branch condition _ _ => do
    c.read condition
    let _ ← c.requireKind condition 5
  | .switchI32 key _ _ => do
    c.read key
    let _ ← c.requireKind key 1
  | .return_ value =>
    if c.result.kind = 0 then
      ensure (value == absentRegister) (c.typeFailure "unit return contains a value")
    else do
      c.read value
      let valueType ← c.registerType value
      c.ensureAssignable c.moduleId valueType c.signatureModule c.result
        "return value type disagrees with signature"
  | .throw exception => do
    c.read exception
    let value ← c.requireKind exception 7
    ensure (value.flags &&& 1 == 0) (c.typeFailure "throw operand is nullable")
  | .yield _ => pure ()
  | .sleep duration _ => do
    c.read duration
    let _ ← c.requireKind duration 2
  | .coroutineJoin dst coroutine _ => do
    c.read coroutine
    let _ ← c.requireKind coroutine 1
    ensure (dst == absentRegister) (c.typeFailure "task join destination must be Unit")
  | .channelCreate dst capacity => do
    c.read capacity
    let _ ← c.requireKind capacity 1
    let _ ← c.requireKind dst 1
    c.write dst
  | .channelSend channel value _ => do
    c.read channel
    c.read value
    let _ ← c.requireKind channel 1
    let _ ← c.requireKind value 1
  | .channelReceive dst channel _ => do
    c.read channel
    let _ ← c.requireKind channel 1
    let _ ← c.requireKind dst 1
    c.write dst
  | .stringLength dst string => do
    c.read string
    c.requireString string
    let _ ← c.requireKind dst 1
    c.write dst
  | .stringGet dst string index => do
    c.read string
    c.read index
    c.requireString string
    let _ ← c.requireKind index 1
    let _ ← c.requireKind dst 6
    c.write dst
  | .stringEquals dst lhs rhs => c.verifyStringPair dst lhs rhs 5
  | .stringCompare dst lhs rhs => c.verifyStringPair dst lhs rhs 1
  | .stringHash dst string => do
    c.read string
    c.requireString string
    let _ ← c.requireKind dst 1
    c.write dst
  | .stringConcat dst lhs rhs => do
    c.read lhs
    c.read rhs
    c.requireString lhs
    c.requireString rhs
    c.requireString dst
    c.write dst
  | .valueHash form dst source => do
    ensure (!(form == 4 && c.artifact.header.runtimeMinor < 12))
      (c.typeFailure "Double text and hashing require Runtime ABI 1.12")
    ensure (!(c.artifact.header.runtimeMinor < 11) && (1 ≤ form && form ≤ 7))
      (c.typeFailure "value hash requires Runtime ABI 1.11 and a supported form")
    c.read source
    let _ ← c.requireKind source form
    let _ ← c.requireKind dst 1
    c.write dst
  | .stringValueOf form dst source => do
    ensure (!(form == 4 && c.artifact.header.runtimeMinor < 12))
      (c.typeFailure "Double text and hashing require Runtime ABI 1.12")
    ensure (1 ≤ form && form ≤ 9) (c.typeFailure "unsupported string conversion form")
    ensure (!(form == 7 && c.artifact.header.runtimeMinor < 10))
      (c.typeFailure "reference string conversion requires Runtime ABI 1.10")
    c.read source
    let _ ← c.requireKind source (numericFormKind form)
    c.requireString dst
    c.write dst
  | .stringSubstring dst string start stop => do
    c.read string
    c.read start
    c.read stop
    c.requireString string
    let _ ← c.requireKind start 1
    let _ ← c.requireKind stop 1
    c.requireString dst
    c.write dst
  | .stringFromCharArray dst array start stop => do
    let (_, element) ← c.arrayElement array
    ensure (element.kind == 6) (c.typeFailure "string source is not a CharArray")
    c.read start
    c.read stop
    let _ ← c.requireKind start 1
    let _ ← c.requireKind stop 1
    c.requireString dst
    c.write dst

/-- A suspending call needs a suspending function, unsigned forms a recent ABI. -/
def verifyInstruction (instruction : Instruction) : Check Unit := do
  let suspending := match instruction with
    | .callSuspend .. => true
    | _ => false
  ensure (!(c.function.flags &&& 1 == 0 && suspending))
    (c.failure .cfg .badControlFlow "suspending terminator appears in a non-suspending function")
  ensure (!(instruction.usesUnsignedSemantics && c.artifact.header.runtimeMinor < 14))
    (c.typeFailure "unsigned numeric forms require Runtime ABI 1.14")
  c.verifyOperation instruction

end Site

end Compukter
