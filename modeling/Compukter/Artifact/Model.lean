/-
Decoded artifacts: the tables that the decoder hands to the verifier and to admission.

* ids, table indices and the enumerations that the format stores as bytes are natural numbers: the
  source compares them as numbers;
* a string table holds the byte slices themselves, not ranges into the artifact;
* `absentId` and `absentRegister` are the sentinels `u32::MAX` and `u16::MAX`.

A failed check is a `Rejection`: a diagnostic, an index out of bounds, or a recursion that does not end.
-/
import Compukter.Lib.Fallible

namespace Compukter

/-! ## Diagnostics -/

inductive Family
  | container | section_ | limit | module_ | symbol | type | code | cfg | register | exception
  | capability | cost
  deriving DecidableEq

inductive Code
  | unexpectedEnd | integerOverflow | nonCanonicalUleb128 | invalidUtf8 | limitExceeded | badMagic
  | unsupportedVersion | badLength | badDigest | badDirectory | badSection | badRecord | badModule
  | badSymbol | badType | badInstruction | badControlFlow | uninitializedRegister | badException
  | badCapability | badCost
  deriving DecidableEq

/-- A diagnostic and the part of its location that the verifier fills in. -/
structure Diagnostic where
  family : Family
  code : Code
  (module function : Option Nat)
  detail : String
  deriving DecidableEq

/-- How a check ends without accepting. -/
inductive Rejection
  | diagnostic (d : Diagnostic)
  | panics | diverges
  deriving DecidableEq

/-- The result of a fallible check. -/
abbrev Checked := Except Rejection

/-! ## Sentinels -/

def absentId : Nat := 0xffffffff

def absentRegister : Nat := 0xffff

/-- References with this bit name an import. -/
def importBit : Nat := 0x80000000

/-! ## Types -/

abbrev TypeId := Nat

structure ValueType where
  (kind flags : Nat)
  nominalType : TypeId
  deriving DecidableEq

inductive PhysicalAtom
  | i32 | i64 | f32 | f64 | ref32
  deriving DecidableEq

structure FunctionValue where
  semanticType : ValueType
  components : List PhysicalAtom
  deriving DecidableEq

structure InlineType where
  name : Nat
  components : List ValueType
  deriving DecidableEq

structure ClassType where
  (flags genericArity name : Nat)
  superType : TypeId
  interfaces : List TypeId
  (fieldStart fieldCount methodStart methodCount : Nat)
  initializer : Option Nat
  deriving DecidableEq

structure InterfaceType where
  (flags genericArity name : Nat)
  superType : TypeId
  interfaces : List TypeId
  (methodStart methodCount : Nat)
  deriving DecidableEq

structure ArrayType where
  (name storage : Nat)
  element : ValueType
  superType : Option TypeId
  deriving DecidableEq

structure FunctionType where
  (name flags : Nat)
  result : ValueType
  parameters : List ValueType
  deriving DecidableEq

inductive NominalType
  | inlineValue (t : InlineType)
  | classType (t : ClassType)
  | interfaceType (t : InterfaceType)
  | arrayType (t : ArrayType)
  | functionType (t : FunctionType)
  deriving DecidableEq

/-! ## The other tables -/

inductive Constant
  | i32 (value : Int)
  | i64 (value : Int)
  | f32 (bits : Nat)
  | f64 (bits : Nat)
  | bool (value : Bool)
  | char (unit : Nat)
  | string (literal : Nat)
  | null
  deriving DecidableEq

structure Capability where
  (namespaceName name abiMajor minimumAbiMinor flags operationCount : Nat)
  deriving DecidableEq

structure Import where
  (kind targetModule targetName : Nat)
  expectedSignature : TypeId
  targetHash : List UInt8
  deriving DecidableEq

structure Export where
  (kind visibility name localSymbol : Nat)
  signature : TypeId
  deriving DecidableEq

structure Field where
  owner : TypeId
  name : Nat
  valueType : ValueType
  flags : Nat
  deriving DecidableEq

structure Function where
  owner : TypeId
  name : Nat
  signature : TypeId
  (flags registerCount parameterCount firstBlock blockCount firstException exceptionCount : Nat)
  values : List FunctionValue
  deriving DecidableEq

def Function.isAbstract (function : Function) : Bool := function.flags &&& 8 != 0

structure ValueComponent where
  (value component : Nat)
  deriving DecidableEq

structure SafepointRoots where
  (function block instructionBoundary : Nat)
  references : List ValueComponent
  deriving DecidableEq

/-- A basic block record; its instructions stand in the code table. -/
structure BlockRecord where
  (ownerFunction codeRecord instructionCount declaredFixedCost flags : Nat)
  deriving DecidableEq

structure ExceptionEntry where
  (ownerFunction firstProtectedBlock protectedBlockCount : Nat)
  catchType : TypeId
  (handlerBlock exceptionRegister : Nat)
  deriving DecidableEq

end Compukter
