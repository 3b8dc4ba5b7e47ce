/-
The decoder's last check: the tables of all modules refer to each other within bounds, and the tables
that are searched by key are strictly ordered.

Reading the tables from the bytes of the container is not modelled; `validateLocalTables` is what is
known of tables that the decoder hands over.  Debug records are left out.
-/
import Compukter.Verify.Types

namespace Compukter

open Fallible

/-- The limit that this check reads. -/
structure ArtifactLimits where
  safepointsPerFunction : Nat
  deriving DecidableEq

/-- Every table check is reported as a bad record. -/
def recordError (detail : String) : Rejection :=
  .diagnostic ⟨.section_, .badRecord, none, none, detail⟩

/-- Neighbours in strictly increasing lexicographic order. -/
def strictlyOrdered : List (List (List Nat)) → Bool
  | key :: next :: rest => decide (key < next) && strictlyOrdered (next :: rest)
  | _ => true

namespace DecodedModule

variable (m : DecodedModule)

/-! ## References -/

/-- The string is in the table. -/
def string (id : Nat) : Checked Unit :=
  demand (id < m.strings.length) (recordError "string id is out of range")

/-- A type of this module, or an import of a type. -/
def typeRef (reference : TypeId) (allowAbsent : Bool) : Checked Unit :=
  if reference = absentId then
    demand allowAbsent (recordError "type reference uses an invalid absent sentinel")
  else if reference &&& importBit = 0 then
    demand (reference < m.types.length) (recordError "type reference is out of range")
  else do
    let found ← demandSome m.imports[reference &&& 0x7fffffff]?
      (recordError "type reference is out of range")
    demand (found.kind == 0) (recordError "type reference names a non-type import")

/-- Only the two nominal kinds refer to a type. -/
def valueTypeRef (value : ValueType) : Checked Unit :=
  if value.kind == 7 || value.kind == 8 then m.typeRef value.nominalType false else .ok ()

/-- The range lies in a table, and its end is a 32-bit number. -/
def checkedRange (start count bound : Nat) (detail : String) : Checked Unit :=
  demand (start + count < 2 ^ 32 && start + count ≤ bound) (recordError detail)

/-! ## Sort keys

  A key is a tuple, written as a list so that `<` is the order of the source; the name is the string
  itself.  Keys are compared after all names have been checked. -/

/-- The bytes of a name. -/
def nameKey (id : Nat) : List Nat := ((m.strings[id]?).getD []).map UInt8.toNat

def importKey (i : Import) : List (List Nat) :=
  [[i.targetModule], [i.kind], m.nameKey i.targetName, [i.expectedSignature]]

def exportKey (e : Export) : List (List Nat) := [[e.kind], m.nameKey e.name, [e.signature]]

def capabilityKey (c : Capability) : List (List Nat) :=
  [m.nameKey c.namespaceName, m.nameKey c.name, [c.abiMajor], [c.minimumAbiMinor]]

def safepointKey (s : SafepointRoots) : List (List Nat) :=
  [[s.function], [s.block], [s.instructionBoundary]]

def rootKey (r : ValueComponent) : List (List Nat) := [[r.value], [r.component]]

/-! ## Tables -/

def validateType : NominalType → Checked Unit
  | .inlineValue t => do
    checkAll m.valueTypeRef t.components
    m.string t.name
  | .classType t => do
    m.typeRef t.superType true
    checkAll (m.typeRef · false) t.interfaces
    m.string t.name
  | .interfaceType t => do
    m.typeRef t.superType true
    checkAll (m.typeRef · false) t.interfaces
    m.string t.name
  | .arrayType t => do
    m.valueTypeRef t.element
    checkAll (m.typeRef · false) t.superType.toList
    m.string t.name
  | .functionType t => do
    m.valueTypeRef t.result
    checkAll m.valueTypeRef t.parameters
    m.string t.name

def validateConstant : Constant → Checked Unit
  | .string literal =>
    demand (literal < m.utf16Literals.length) (recordError "UTF-16 literal id is out of range")
  | _ => .ok ()

def validateImport (moduleCount : Nat) (i : Import) : Checked Unit := do
  demand (i.targetModule < moduleCount) (recordError "import target module is out of range")
  m.string i.targetName
  m.typeRef i.expectedSignature false

/-- The number of symbols that an export of the kind can name. -/
def symbolCount (kind : Nat) : Nat :=
  match kind with
  | 0 => m.types.length
  | 1 => m.functions.length
  | 2 => m.fields.length
  | _ => 0

def validateExport (e : Export) : Checked Unit := do
  m.string e.name
  m.typeRef e.signature false
  demand (e.localSymbol < m.symbolCount e.kind) (recordError "export local symbol is out of range")

def validateField (f : Field) : Checked Unit := do
  m.typeRef f.owner false
  m.string f.name
  m.valueTypeRef f.valueType

def validateFunction (f : Function) : Checked Unit := do
  m.typeRef f.owner true
  m.string f.name
  m.typeRef f.signature false
  demand (f.parameterCount ≤ f.registerCount) (recordError "parameter count exceeds register count")
  checkedRange f.firstBlock f.blockCount m.blocks.length "function block range is out of bounds"
  checkedRange f.firstException f.exceptionCount m.exceptions.length
    "function exception range is out of bounds"
  checkAll (fun value : FunctionValue => m.valueTypeRef value.semanticType) f.values

/-- The component holds a reference. -/
def isReference (f : Function) (r : ValueComponent) : Bool :=
  ((f.values[r.value]?).bind (·.components[r.component]?)) == some .ref32

/-- The roots of one safepoint. -/
def validateRoots (f : Function) (roots : SafepointRoots) : Checked Unit := do
  demand (strictlyOrdered (roots.references.map rootKey))
    (recordError "safepoint roots are not strictly ordered")
  checkAll (fun r => demand (isReference f r) (recordError "safepoint root is not a Ref32 component"))
    roots.references

/-- The safepoints of one function. -/
def validateSafepoints (limits : ArtifactLimits) (functionId : Nat) (f : Function) : Checked Unit := do
  let roots := m.safepointRoots.filter (·.function == functionId)
  demand (roots.length ≤ limits.safepointsPerFunction) (recordError "safepoint limit exceeded")
  checkAll (validateRoots f) roots

/-- Block and code record have the same number. -/
def validateBlock (blockId : Nat) (b : BlockRecord) : Checked Unit :=
  demand (b.ownerFunction < m.functions.length && b.codeRecord == blockId &&
      b.codeRecord < m.code.length)
    (recordError "block owner or code record is out of range")

def validateException (e : ExceptionEntry) : Checked Unit := do
  demand (e.ownerFunction < m.functions.length && e.firstProtectedBlock < m.blocks.length &&
      e.handlerBlock < m.blocks.length)
    (recordError "exception reference is out of range")
  m.typeRef e.catchType true

/-- All tables of a module, in the order in which the source checks them. -/
def validateModuleTables (limits : ArtifactLimits) (moduleCount : Nat) : Checked Unit := do
  checkAll m.validateType m.types
  checkAll m.validateConstant m.constants
  checkAll (m.validateImport moduleCount) m.imports
  demand (strictlyOrdered (m.imports.map m.importKey)) (recordError "imports are not strictly ordered")
  checkAll m.validateExport m.exports
  demand (strictlyOrdered (m.exports.map m.exportKey)) (recordError "exports are not strictly ordered")
  checkAll m.validateField m.fields
  checkAll m.validateFunction m.functions
  demand (strictlyOrdered (m.safepointRoots.map safepointKey))
    (recordError "safepoint maps are not strictly ordered")
  checkAll (fun (f, functionId) => m.validateSafepoints limits functionId f) m.functions.zipIdx
  demand (m.safepointRoots.all (·.function < m.functions.length))
    (recordError "safepoint owner function is out of range")
  checkAll (fun (b, blockId) => m.validateBlock blockId b) m.blocks.zipIdx
  demand (m.blocks.length == m.code.length) (recordError "block and code record counts disagree")
  checkAll m.validateException m.exceptions

end DecodedModule

namespace DecodedArtifact

variable (a : DecodedArtifact)

/-- The modules that are flagged as an application. -/
def applicationModules : List Nat :=
  (List.range a.modules.length).filter fun moduleId => (a.moduleAt moduleId).flags == 1

/-- The entry point, the flags, the capabilities and the tables of every module. -/
def validateLocalTables (limits : ArtifactLimits) : Checked Unit := do
  let entry ← demandSome a.modules[a.header.entryModule]? (recordError "entry module id is out of range")
  demand (a.header.entryFunction < entry.functions.length)
    (recordError "entry function id is out of range")
  demand (a.applicationModules == [a.header.entryModule] &&
      a.modules.all fun m => m.flags == 1 || m.flags == 2)
    (recordError "module application/library flags are invalid")
  demand ((a.capabilities.filter (·.flags == 1)).length == a.manifest.requiredCapabilities &&
      (a.capabilities.filter (·.flags == 2)).length == a.manifest.optionalCapabilities)
    (recordError "capability flag counts disagree with manifest")
  checkAll (fun c : Capability => do
    entry.string c.namespaceName
    entry.string c.name) a.capabilities
  demand (strictlyOrdered (a.capabilities.map entry.capabilityKey))
    (recordError "capabilities are not strictly ordered")
  checkAll (fun m : DecodedModule => do
    m.string m.nameString
    m.validateModuleTables limits a.modules.length) a.modules

end DecodedArtifact

end Compukter
