/-
Initialisation and reachability of the blocks of a function.

The verifier keeps, for every block it has reached, the set of registers that are initialised on all
the ways it has seen so far, and processes blocks from a queue until nothing changes.  An instruction
that may throw passes the state before it on to the handlers that protect its block.

`Stop` separates the two rejections that the analysis itself makes from those of the other checks.
-/
import Compukter.Verify.Accesses
import Compukter.Verify.Cfg
import Compukter.Lib.Worklist

namespace Compukter

open BitWords Fallible

/-- A protected range of blocks, and where exceptions thrown in it go. -/
structure Handler where
  (protectedStart protectedEnd handlerBlock exceptionRegister : Nat)
  deriving DecidableEq

/-- Why the analysis of a function stops. -/
inductive Stop
  | uninitialized | unreachable
  | rejected (r : Rejection)
  deriving DecidableEq

def Instruction.isAllocation : Instruction → Bool
  | .newObject .. | .newArray .. | .stringConcat .. | .stringValueOf .. | .stringSubstring ..
  | .stringFromCharArray .. => true
  | _ => false

def mayThrow : Instruction → Bool
  | .convert .. | .div .. | .rem .. | .newObject .. | .newArray .. | .arrayLength .. | .arrayLoad ..
  | .arrayStore .. | .arrayCopy .. | .fieldGet .. | .fieldSet .. | .staticGet .. | .staticSet ..
  | .checkedCast .. | .callDirect .. | .callVirtual .. | .callInterface .. | .coroutineSpawn ..
  | .capabilityCallSync .. | .throw _ | .callSuspend .. | .stringValueOf .. | .stringLength ..
  | .stringGet .. | .stringEquals .. | .stringCompare .. | .stringHash .. | .stringConcat ..
  | .stringSubstring .. | .stringFromCharArray .. | .sleep .. | .coroutineJoin .. | .channelCreate ..
  | .channelSend .. | .channelReceive .. | .capabilityCallAsync .. => true
  | _ => false

namespace Site

variable (c : Site)

def stopRejection : Stop → Rejection
  | .uninitialized =>
    c.failure .register .uninitializedRegister "instruction reads an uninitialized register"
  | .unreachable =>
    c.failure .cfg .badControlFlow
      "function contains an unreachable block or handler without a throwing predecessor"
  | .rejected r => r

/-! ## Register sets -/

def wordCount : Nat := (c.function.registerCount + 63) / 64

/-- The source indexes the word of the register. -/
def setRegister (state : Words) (register : Nat) : Except Stop Words :=
  match set state register with
  | some state' => .ok state'
  | none => .error (.rejected .panics)

def setAll (state : Words) : List Nat → Except Stop Words
  | [] => .ok state
  | register :: rest => do
    let state' ← setRegister state register
    setAll state' rest

def mergeState (flow : Flow) (target : Nat) (incoming : Words) : Except Stop Flow :=
  match flow.merge target incoming with
  | some flow' => .ok flow'
  | none => .error (.rejected .panics)

/-- An instruction on a register set: its script, with the rejections of its checks. -/
def stepInstruction (instruction : Instruction) (state : Words) : Except Stop Words :=
  let script := c.verifyInstruction instruction
  let outcome : Script Stop Unit := ⟨script.accesses, script.result.mapError .rejected⟩
  (outcome.run get setRegister .uninitialized state).map Prod.snd

/-! ## Blocks -/

def Covers (blockId : Nat) (h : Handler) : Bool :=
  h.protectedStart ≤ blockId && blockId < h.protectedEnd

/-- The edge from the state before a throwing instruction to a handler. -/
def throwEdge (state : Words) (flow : Flow) (h : Handler) : Except Stop Flow := do
  let incoming ← setAll state (List.range c.function.parameterCount)
  let incoming ← setRegister incoming h.exceptionRegister
  mergeState flow (h.handlerBlock - c.function.firstBlock) incoming

def throwEdges (state : Words) : List Handler → Flow → Except Stop Flow
  | [], flow => .ok flow
  | h :: rest, flow => do
    let flow' ← c.throwEdge state flow h
    throwEdges state rest flow'

/-- The instructions of a block; `index` and `seen` place allocations. -/
def visitInstructions (handlers : List Handler) :
    Nat → Bool → List Instruction → Flow → Words → Except Stop (Flow × Words)
  | _, _, [], flow, state => .ok (flow, state)
  | index, seen, instruction :: rest, flow, state => do
    if instruction.isAllocation && (index != 0 || seen) then
      .error (.rejected (c.codeFailure
        "allocation must be the first and only allocating instruction in its block"))
    else
      let flow' ← (if mayThrow instruction then c.throwEdges state handlers flow else .ok flow)
      let state' ← c.stepInstruction instruction state
      visitInstructions handlers (index + 1) (seen || instruction.isAllocation) rest flow' state'

def mergeAll (state : Words) : List Nat → Flow → Except Stop Flow
  | [], flow => .ok flow
  | target :: rest, flow => do
    let flow' ← mergeState flow target state
    mergeAll state rest flow'

def blockCost (instructions : List Instruction) : Checked Nat :=
  instructions.foldlM (fun total instruction => do
    let cost ← instruction.fixedCostForValues c.function.values
    if total + cost < 2 ^ 32 then .ok (total + cost)
    else .error (c.failure .cost .badCost "block fixed cost overflows u32")) 0

/-- The checks of a block before its instructions. -/
def verifyBlockRecord (block : BlockRecord) (code : DecodedCode) : Checked Unit := do
  if code.instructions.length ≠ block.instructionCount then
    .error (c.failure .code .badInstruction "decoded instruction count disagrees with block")
  else
    let fixedCost ← c.blockCost code.instructions
    if fixedCost ≠ code.fixedCost ∨ fixedCost ≠ block.declaredFixedCost ∨
        c.artifact.manifest.maximumBlockCost < fixedCost then
      .error (c.failure .cost .badCost "declared and recomputed block costs disagree")
    else .ok ()

def visitBlock (successors : List (List Nat)) (handlers : List Handler) (localBlock : Nat)
    (flow : Flow) : Except Stop Flow :=
  let blockId := c.function.firstBlock + localBlock
  let module := c.artifact.moduleAt c.moduleId
  match flow.stateAt localBlock, module.blocks[blockId]?, module.code[blockId]?,
      successors[localBlock]? with
  | some state, some block, some code, some targets => do
    (c.verifyBlockRecord block code).mapError .rejected
    let (flow', state') ← c.visitInstructions (handlers.filter (Covers blockId)) 0 false
      code.instructions flow state
    mergeAll state' targets flow'
  | _, _, _, _ => .error (.rejected .panics)

/-! ## The whole function -/

def processQueue (successors : List (List Nat)) (handlers : List Handler) :
    Nat → Flow → Except Stop Flow
  | 0, _ => .error (.rejected .diverges)
  | fuel + 1, flow =>
    match flow.queue with
    | [] => .ok flow
    | localBlock :: rest => do
      let flow' ← c.visitBlock successors handlers localBlock { flow with queue := rest }
      processQueue successors handlers fuel flow'

/-- More steps than the analysis can take (`processQueue_ends`). -/
def dataflowFuel (blocks : Nat) : Nat := 2 * (blocks * (64 * c.wordCount + 1)) + 2

def verifyDataflow (successors : List (List Nat)) (handlers : List Handler) : Except Stop Unit := do
  let entry ← setAll (empty c.wordCount) (List.range c.function.parameterCount)
  if successors.length = 0 then .error (.rejected .panics)
  else
    let states := (List.replicate successors.length none).set 0 (some entry)
    let flow ← c.processQueue successors handlers (c.dataflowFuel successors.length) ⟨states, [0]⟩
    if flow.states.any Option.isNone then .error .unreachable else .ok ()

end Site

end Compukter
