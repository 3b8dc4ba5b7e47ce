/-
The instruction set of the VM, with what the verifier reads off an instruction alone: whether it ends
a block, whether it needs the unsigned forms, and its fixed cost.

Costs are `u32` in the source.  A sum that leaves that range is an error there, so it is one here.
-/
import Compukter.Artifact.Model

namespace Compukter

open Fallible

/-! ## Floating-point and matrix operations -/

inductive MathUnaryOperation
  | abs | sign | ceil | floor | truncate | round | sin | cos | tan | asin | acos | atan | sinh | cosh
  | tanh | asinh | acosh | atanh | sqrt | cbrt | exp | expm1 | ln | ln1p | log10 | log2 | ulp | nextUp
  | nextDown
  deriving DecidableEq

def MathUnaryOperation.fixedCost : MathUnaryOperation → Nat
  | .abs | .sign => 2
  | .ceil | .floor | .truncate | .round | .ulp | .nextUp | .nextDown => 4
  | .sqrt => 16
  | .sin | .cos | .tan | .asin | .acos | .atan | .sinh | .cosh | .tanh | .asinh | .acosh | .atanh
  | .cbrt | .exp | .expm1 | .ln | .ln1p | .log10 | .log2 => 64

inductive MathBinaryOperation
  | min | max | atan2 | hypot | pow | ieeeRem | copySign | nextTowards
  deriving DecidableEq

def MathBinaryOperation.fixedCost : MathBinaryOperation → Nat
  | .min | .max | .copySign => 2
  | .nextTowards => 4
  | .hypot => 32
  | .atan2 | .pow | .ieeeRem => 64

inductive MatrixOperation
  | transpose | multiplyMatrix | multiplyVector | transformPoint | transformDirection | transpose3f
  | multiplyMatrix3f | multiplyVector3f | transpose3d | multiplyMatrix3d | multiplyVector3d
  | transpose4d | multiplyMatrix4d | multiplyVector4d | transformPoint4d | transformDirection4d
  deriving DecidableEq

namespace MatrixOperation

def dimension : MatrixOperation → Nat
  | transpose3f | multiplyMatrix3f | multiplyVector3f | transpose3d | multiplyMatrix3d
  | multiplyVector3d => 3
  | _ => 4

/-- The operations numbered from 9 on work on doubles. -/
def scalarKind : MatrixOperation → Nat
  | transpose | multiplyMatrix | multiplyVector | transformPoint | transformDirection
  | transpose3f | multiplyMatrix3f | multiplyVector3f => 3
  | _ => 4

/-- The operations numbered from 6 on came later. -/
def runtimeMinor : MatrixOperation → Nat
  | transpose | multiplyMatrix | multiplyVector | transformPoint | transformDirection => 17
  | _ => 19

def isTranspose : MatrixOperation → Bool
  | transpose | transpose3f | transpose3d | transpose4d => true
  | _ => false

def isMatrixProduct : MatrixOperation → Bool
  | multiplyMatrix | multiplyMatrix3f | multiplyMatrix3d | multiplyMatrix4d => true
  | _ => false

def homogeneousW : MatrixOperation → Option Bool
  | transformPoint | transformPoint4d => some true
  | transformDirection | transformDirection4d => some false
  | _ => none

variable (m : MatrixOperation)

def leftComponents : Nat := m.dimension * m.dimension

def rightComponents : Option Nat :=
  if m.isTranspose then none
  else if m.isMatrixProduct then some m.leftComponents
  else if m.homogeneousW.isSome then some 3
  else some m.dimension

def resultComponents : Nat :=
  if m.isTranspose || m.isMatrixProduct then m.leftComponents else m.dimension

def fixedCost : Nat :=
  if m.isTranspose then m.leftComponents + 2
  else if m.isMatrixProduct then 2 * m.dimension ^ 3
  else 2 * m.leftComponents

end MatrixOperation

/-! ## Instructions -/

structure SwitchCase where
  value : Int
  target : Nat
  deriving DecidableEq

/-- Registers, ids and block numbers are plain numbers; blocks are numbered within the module. -/
inductive Instruction
  | inlineConstruct (dst : Nat) (components : List Nat)
  | inlineComponent (dst src component : Nat)
  | nop
  | move (dst src : Nat)
  | const (dst constant : Nat)
  | null (dst : Nat)
  | matrixMath (operation : MatrixOperation) (dst lhs : Nat) (rhs : Option Nat)
  | mathUnary (form : Nat) (operation : MathUnaryOperation) (dst src : Nat)
  | mathBinary (form : Nat) (operation : MathBinaryOperation) (dst lhs rhs : Nat)
  | convert (form dst src : Nat)
  | add (form dst lhs rhs : Nat)
  | sub (form dst lhs rhs : Nat)
  | mul (form dst lhs rhs : Nat)
  | div (form dst lhs rhs : Nat)
  | rem (form dst lhs rhs : Nat)
  | neg (form dst src : Nat)
  | bitAnd (form dst lhs rhs : Nat)
  | bitOr (form dst lhs rhs : Nat)
  | bitXor (form dst lhs rhs : Nat)
  | shiftLeft (form dst lhs rhs : Nat)
  | shiftRight (form dst lhs rhs : Nat)
  | shiftUnsigned (form dst lhs rhs : Nat)
  | equal (form dst lhs rhs : Nat)
  | notEqual (form dst lhs rhs : Nat)
  | less (form dst lhs rhs : Nat)
  | lessEqual (form dst lhs rhs : Nat)
  | greater (form dst lhs rhs : Nat)
  | greaterEqual (form dst lhs rhs : Nat)
  | refEqual (dst lhs rhs : Nat)
  | refNotEqual (dst lhs rhs : Nat)
  | newObject (dst typeRef : Nat)
  | newArray (dst typeRef length : Nat)
  | arrayLength (dst array : Nat)
  | arrayLoad (dst array index : Nat)
  | arrayStore (array index value : Nat)
  | arrayCopy (source destination sourceStart destinationStart length : Nat)
  | fieldGet (dst receiver fieldRef : Nat)
  | fieldSet (receiver fieldRef value : Nat)
  | staticGet (dst fieldRef : Nat)
  | staticSet (fieldRef value : Nat)
  | isType (dst value typeRef : Nat)
  | checkedCast (dst value typeRef : Nat)
  | callDirect (dst functionRef : Nat) (args : List Nat)
  | callVirtual (dst functionRef : Nat) (args : List Nat)
  | callInterface (dst functionRef : Nat) (args : List Nat)
  | coroutineSpawn (dst functionRef : Nat) (args : List Nat)
  | capabilityCallSync (dst capability operation : Nat) (args : List Nat)
  | stringLength (dst string : Nat)
  | stringGet (dst string index : Nat)
  | stringEquals (dst lhs rhs : Nat)
  | stringCompare (dst lhs rhs : Nat)
  | stringHash (dst string : Nat)
  | stringConcat (dst lhs rhs : Nat)
  | valueHash (form dst source : Nat)
  | stringValueOf (form dst source : Nat)
  | stringSubstring (dst string start stop : Nat)
  | stringFromCharArray (dst array start stop : Nat)
  | jump (target : Nat)
  | branch (condition trueBlock falseBlock : Nat)
  | switchI32 (key defaultBlock : Nat) (cases : List SwitchCase)
  | return_ (value : Nat)
  | throw (exception : Nat)
  | callSuspend (dst functionRef : Nat) (args : List Nat) (resumeBlock : Nat)
  | yield (resumeBlock : Nat)
  | sleep (duration resumeBlock : Nat)
  | coroutineJoin (dst coroutine resumeBlock : Nat)
  | channelCreate (dst capacity : Nat)
  | channelSend (channel value resumeBlock : Nat)
  | channelReceive (dst channel resumeBlock : Nat)
  | capabilityCallAsync (dst capability operation : Nat) (args : List Nat) (resumeBlock : Nat)
  | unreachable
  deriving DecidableEq

namespace Instruction

/-- Forms 8 and 9 are the unsigned integers; a conversion marks its unsigned sides in the form. -/
def usesUnsignedSemantics : Instruction → Bool
  | convert form _ _ => form == 1 || form == 2 || form == 3
  | add form _ _ _ | sub form _ _ _ | mul form _ _ _ | div form _ _ _ | rem form _ _ _
  | equal form _ _ _ | notEqual form _ _ _ | less form _ _ _ | lessEqual form _ _ _
  | greater form _ _ _ | greaterEqual form _ _ _ | stringValueOf form _ _ => form == 8 || form == 9
  | _ => false

def isTerminator : Instruction → Bool
  | jump _ | branch .. | switchI32 .. | return_ _ | throw _ | callSuspend .. | yield _ | sleep ..
  | coroutineJoin .. | channelSend .. | channelReceive .. | capabilityCallAsync .. | unreachable =>
    true
  | _ => false

/-- An addition of `u32` values. -/
def addCost (detail : String) (a b : Nat) : Checked Nat :=
  if a + b < 2 ^ 32 then .ok (a + b)
  else .error (.diagnostic ⟨.cost, .badCost, none, none, detail⟩)

def variableCost (base count : Nat) : Checked Nat := addCost "fixed cost overflows u32" base count

def fixedCost : Instruction → Checked Nat
  | inlineConstruct _ components => variableCost 2 components.length
  | inlineComponent .. => .ok 2
  | matrixMath operation .. | mathUnary _ operation _ _ | mathBinary _ operation _ _ _ =>
    .ok operation.fixedCost
  | mul .. | convert .. | arrayLength .. | arrayLoad .. | arrayStore .. | arrayCopy .. | fieldGet ..
  | fieldSet .. | staticGet .. | staticSet .. | isType .. | checkedCast .. | throw _ | yield _ => .ok 2
  | div .. | rem .. | newObject .. | newArray .. | coroutineJoin .. => .ok 4
  | channelCreate .. => .ok 3
  | channelSend .. | channelReceive .. => .ok 4
  | sleep .. => .ok 3
  | callDirect _ _ args => variableCost 4 args.length
  | callVirtual _ _ args | callSuspend _ _ args _ => variableCost 5 args.length
  | callInterface _ _ args | coroutineSpawn _ _ args | capabilityCallAsync _ _ _ args _ =>
    variableCost 6 args.length
  | capabilityCallSync _ _ _ args => variableCost 5 args.length
  | switchI32 _ _ cases => variableCost 1 cases.length
  | _ => .ok 1

/-- The registers whose values are copied as a whole. -/
def transferred : Instruction → List Nat
  | move _ src => [src]
  | return_ value => if value = absentRegister then [] else [value]
  | callDirect _ _ args | callVirtual _ _ args | callInterface _ _ args | callSuspend _ _ args _
  | coroutineSpawn _ _ args => args
  | _ => []

/-- An inline value costs one unit for each component after the first. -/
def transferCost (values : List FunctionValue) (register : Nat) : Nat :=
  match values[register]? with
  | some value => if value.semanticType.kind = 8 then value.components.length - 1 else 0
  | none => 0

def fixedCostForValues (values : List FunctionValue) (instruction : Instruction) : Checked Nat := do
  let additional ← instruction.transferred.foldlM
    (fun total register =>
      addCost "inline transfer cost overflows u32" total (transferCost values register)) 0
  let fixed ← instruction.fixedCost
  addCost "inline transfer cost overflows u32" fixed additional

end Instruction

/-! ## Modules and artifacts -/

structure DecodedCode where
  instructions : List Instruction
  fixedCost : Nat
  deriving DecidableEq

structure DecodedModule where
  (nameString flags : Nat)
  semanticHash : List UInt8
  (strings utf16Literals : List (List UInt8))
  types : List NominalType
  constants : List Constant
  imports : List Import
  exports : List Export
  fields : List Field
  functions : List Function
  blocks : List BlockRecord
  code : List DecodedCode
  exceptions : List ExceptionEntry
  safepointRoots : List SafepointRoots
  deriving DecidableEq

inductive EntryArguments
  | none | stringArray
  deriving DecidableEq

structure ArtifactHeader where
  (runtimeMajor runtimeMinor semanticFeatures entryModule entryFunction : Nat)
  entryArguments : EntryArguments
  deriving DecidableEq

structure Manifest where
  (requiredHeapBytes requiredStackBytes maximumCoroutines maximumCallDepth maximumHostRequests : Nat)
  (maximumEvents maximumBlockCost minimumSliceCost requiredCapabilities optionalCapabilities : Nat)
  (maximumChannels maximumChannelValues : Nat)
  deriving DecidableEq

structure DecodedArtifact where
  header : ArtifactHeader
  manifest : Manifest
  capabilities : List Capability
  modules : List DecodedModule
  deriving DecidableEq

end Compukter
