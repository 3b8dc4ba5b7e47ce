/-
Control flow of a function: its blocks, and the successors of each.

Blocks are numbered within the module; the successors of a function's blocks are numbered from its
first block on.
-/
import Compukter.Verify.Types

namespace Compukter

def controlFailure (moduleId functionId : Nat) (detail : String) : Rejection :=
  .diagnostic ⟨.cfg, .badControlFlow, some moduleId, some functionId, detail⟩

def terminatorTargets : Instruction → List Nat
  | .jump target => [target]
  | .branch _ trueBlock falseBlock => [trueBlock, falseBlock]
  | .switchI32 _ defaultBlock cases => defaultBlock :: cases.map SwitchCase.target
  | .callSuspend _ _ _ resumeBlock | .yield resumeBlock | .sleep _ resumeBlock
  | .coroutineJoin _ _ resumeBlock | .channelSend _ _ resumeBlock | .channelReceive _ _ resumeBlock
  | .capabilityCallAsync _ _ _ _ resumeBlock => [resumeBlock]
  | _ => []

section Control

variable (module : DecodedModule) (moduleId functionId : Nat) (handlerBlocks : List Nat) (start stop : Nat)

/-- One target of the terminator of block `blockId`, numbered from the first block of the function. -/
def verifyTarget (blockId target : Nat) : Checked Nat :=
  if target < start ∨ stop ≤ target then
    .error (controlFailure moduleId functionId "control-flow target is outside the function")
  else
    match module.blocks[target]? with
    | none => .error .panics
    | some record =>
      if target ≤ blockId ∧ record.flags &&& 1 = 0 then
        .error (controlFailure moduleId functionId "backedge target is not a loop-header safepoint")
      else if handlerBlocks.contains target then
        .error (controlFailure moduleId functionId
          "ordinary control flow targets an exception handler")
      else .ok (target - start)

def verifyBlockShape (blockId : Nat) : Checked (List Nat) :=
  match module.blocks[blockId]?, module.code[blockId]? with
  | some block, some code =>
    if block.ownerFunction ≠ functionId ∨ block.codeRecord ≠ blockId then
      .error (controlFailure moduleId functionId
        "function blocks are not contiguous or have the wrong owner")
    else
      match code.instructions.getLast? with
      | none =>
        .error (controlFailure moduleId functionId
          "block does not contain exactly one final terminator")
      | some last =>
        if !last.isTerminator || code.instructions.dropLast.any Instruction.isTerminator then
          .error (controlFailure moduleId functionId
            "block does not contain exactly one final terminator")
        else
          (terminatorTargets last).mapM (verifyTarget module moduleId functionId handlerBlocks start stop blockId)
  | _, _ => .error .panics

end Control

/-- The successors of the blocks of a function, in the order of the blocks. -/
def verifyControlFlow (module : DecodedModule) (moduleId functionId : Nat) (function : Function)
    (handlerBlocks : List Nat) : Checked (List (List Nat)) :=
  let start := function.firstBlock
  let stop := start + function.blockCount
  if ¬ (stop ≤ module.blocks.length ∧ stop ≤ module.code.length) then
    .error (controlFailure moduleId functionId "function block range is invalid")
  else if start = stop then
    .error (controlFailure moduleId functionId "non-abstract function has no blocks")
  else
    (List.range' start function.blockCount).mapM
      (verifyBlockShape module moduleId functionId handlerBlocks start stop)

/-! ## Accepted control flow -/

/-- What the accepted successors of a function are. -/
structure ControlFlow (module : DecodedModule) (functionId : Nat) (function : Function)
    (handlerBlocks : List Nat) (successors : List (List Nat)) : Prop where
  length : successors.length = function.blockCount
  nonempty : 0 < function.blockCount
  records : ∀ b, b < function.blockCount → ∃ block code,
    module.blocks[function.firstBlock + b]? = some block ∧
    module.code[function.firstBlock + b]? = some code ∧
    block.ownerFunction = functionId ∧
    ∃ last, code.instructions.getLast? = some last ∧ last.isTerminator = true ∧
      code.instructions.dropLast.any Instruction.isTerminator = false ∧
      successors[b]? = some ((terminatorTargets last).map (· - function.firstBlock))
  targets : ∀ (b : Nat) (targets : List Nat) (t : Nat), successors[b]? = some targets → t ∈ targets →
    t < function.blockCount ∧ function.firstBlock + t ∉ handlerBlocks

variable {module : DecodedModule} {moduleId functionId start stop blockId : Nat}

theorem verifyTarget_ok {target t : Nat} {handlerBlocks : List Nat}
    (h : verifyTarget module moduleId functionId handlerBlocks start stop blockId target = .ok t) :
    start ≤ target ∧ target < stop ∧ t = target - start ∧ target ∉ handlerBlocks := by
  unfold verifyTarget at h
  split at h
  case isTrue => cases h
  case isFalse hrange =>
    split at h
    case h_1 => cases h
    case h_2 =>
      split at h
      case isTrue => cases h
      case isFalse =>
        split at h
        case isTrue => cases h
        case isFalse hhandler =>
          cases h
          refine ⟨by omega, by omega, rfl, fun hmem => hhandler ?_⟩
          exact List.contains_iff_mem.mpr hmem

theorem verifyTargets_ok {handlerBlocks l targets : List Nat} (h : List.Forall₂ (fun a b =>
      verifyTarget module moduleId functionId handlerBlocks start stop blockId a = .ok b) l targets) :
    targets = l.map (· - start) ∧ ∀ t ∈ l, start ≤ t ∧ t < stop ∧ t ∉ handlerBlocks := by
  induction h with
  | nil => exact ⟨rfl, fun t h => by cases h⟩
  | cons hhead _ ih =>
    obtain ⟨hlo, hhi, rfl, hnot⟩ := verifyTarget_ok hhead
    refine ⟨by rw [List.map_cons, ← ih.1], fun t ht => ?_⟩
    rcases List.mem_cons.mp ht with rfl | ht
    · exact ⟨hlo, hhi, hnot⟩
    · exact ih.2 t ht

theorem verifyBlockShape_ok {handlerBlocks targets : List Nat}
    (h : verifyBlockShape module moduleId functionId handlerBlocks start stop blockId = .ok targets) :
    ∃ block code last, module.blocks[blockId]? = some block ∧ module.code[blockId]? = some code ∧
      block.ownerFunction = functionId ∧ code.instructions.getLast? = some last ∧
      last.isTerminator = true ∧ code.instructions.dropLast.any Instruction.isTerminator = false ∧
      targets = (terminatorTargets last).map (· - start) ∧
      ∀ t ∈ terminatorTargets last, start ≤ t ∧ t < stop ∧ t ∉ handlerBlocks := by
  unfold verifyBlockShape at h
  split at h
  case h_2 => cases h
  case h_1 block code hblock hcode =>
    split at h
    case isTrue => cases h
    case isFalse howner =>
      split at h
      case h_1 => cases h
      case h_2 last hlast =>
        split at h
        case isTrue => cases h
        case isFalse hterminator =>
          have hall := Fallible.mapM_eq_ok h
          simp only [Bool.or_eq_true, Bool.not_eq_true', not_or, Bool.not_eq_false, Bool.not_eq_true] at hterminator
          obtain ⟨hmap, hrange⟩ := verifyTargets_ok hall
          refine ⟨block, code, last, hblock, hcode, ?_, hlast, hterminator.1, hterminator.2, hmap, hrange⟩
          exact Classical.byContradiction fun hne => howner (.inl hne)

theorem verifyControlFlow_ok {function : Function} {handlerBlocks : List Nat} {successors : List (List Nat)}
    (h : verifyControlFlow module moduleId functionId function handlerBlocks = .ok successors) :
    ControlFlow module functionId function handlerBlocks successors := by
  unfold verifyControlFlow at h
  dsimp only at h
  split at h
  case isTrue => cases h
  case isFalse =>
    split at h
    case isTrue => cases h
    case isFalse hne =>
      obtain ⟨hlen, hget⟩ := List.forall₂_iff_get.mp (Fallible.mapM_eq_ok h)
      rw [List.length_range'] at hlen
      have hblock : ∀ b (hb : b < successors.length), verifyBlockShape module moduleId functionId
          handlerBlocks function.firstBlock (function.firstBlock + function.blockCount)
          (function.firstBlock + b) = .ok successors[b] := by
        intro b hb
        have := hget b (by rw [List.length_range']; omega) hb
        simpa using this
      refine ⟨hlen.symm, by omega, fun b hb => ?_, fun b targets t hb ht => ?_⟩
      · have hb' : b < successors.length := by omega
        obtain ⟨block, code, last, h1, h2, h3, h4, h5, h6, h7, -⟩ := verifyBlockShape_ok (hblock b hb')
        exact ⟨block, code, h1, h2, h3, last, h4, h5, h6, by rw [List.getElem?_eq_getElem hb', h7]⟩
      · obtain ⟨hlt, rfl⟩ := List.getElem?_eq_some_iff.mp hb
        obtain ⟨_, _, last, -, -, -, -, -, -, htargets, hrange⟩ := verifyBlockShape_ok (hblock b hlt)
        rw [htargets] at ht
        obtain ⟨t', ht', rfl⟩ := List.mem_map.mp ht
        obtain ⟨hlo, hhi, hnot⟩ := hrange t' ht'
        refine ⟨by omega, ?_⟩
        rwa [Nat.add_sub_cancel' hlo]

end Compukter
