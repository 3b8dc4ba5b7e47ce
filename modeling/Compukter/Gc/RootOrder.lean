/-
The roots, and the order in which the collector visits them.

`Root image roots ref` says what the roots ARE: a reference held by the runtime, by a failed task,
by the host, by a static reference field or by a register that the safepoint map of a frame lists.

`pending image roots c` is the list of root reads that the cursors of `c` still have ahead of them, failed
reads included.  `nextRoot` pops its head (`nextRoot_spec`), and at the start of a collection it holds
exactly the roots (`root_iff_pending`).
-/
import Compukter.Gc.Collector

namespace Compukter

open Fallible RuntimeValue List

/-! ## What a root is -/

/-- A register that the safepoint map of the frame's position lists holds the reference. -/
def FrameHolds (image : ImageView) (arena : FrameArena) (frame : Frame) (ref : Ref32) : Prop :=
  frame.instruction < 2 ^ 32 ∧
    ∃ offsets, image.safepointMap frame.function frame.block frame.instruction = some offsets ∧
      ∃ offset ∈ offsets, arena.readRef32Offset ⟨frame.base, frame.byteLen⟩ offset = .ok (some ref)

/-- A reference that a stage of the enumeration finds. -/
@[mk_iff root_iff]
inductive Root (image : ImageView) (roots : RootSet) (ref : Ref32) : Prop
  | runtime : some ref ∈ roots.runtimeRoots → Root image roots ref
  | failure : some ref ∈ roots.taskFailures → Root image roots ref
  | external : some ref ∈ roots.external → Root image roots ref
  | static (slot : Nat) : ⟨7, some slot⟩ ∈ image.fields →
      roots.statics.reference slot = .ok (some ref) → Root image roots ref
  | active (frame : Frame) : frame ∈ roots.frames.take roots.frameDepth →
      FrameHolds image roots.frameArena frame ref → Root image roots ref
  | saved (frame : Frame) : frame ∈ roots.savedFrames → frame.function ≠ usizeMax →
      FrameHolds image roots.frameArena frame ref → Root image roots ref

namespace Collector

/-! ## The reads ahead of the cursors -/

/-- One root read: a value, or the fault of a failed read. -/
abbrev Read := Except VmFault RuntimeValue

def entryReads (entries : List (Option Ref32)) : List Read :=
  entries.filterMap (fun entry => entry.map (fun reference => .ok (.reference reference)))

def failureReads (failures : List (Option Ref32)) : List Read :=
  failures.map (fun failure => .ok (.ofReference failure))

def staticReads (statics : StaticArena) (fields : List FieldSlot) : List Read :=
  fields.filterMap (fun field =>
    if field.kind = 7 then
      field.staticSlot.map (fun slot => (statics.reference slot).map ofReference)
    else none)

variable (image : ImageView) (roots : RootSet)

def frameReads (arena : FrameArena) (frame : Frame) (register : Nat) : List Read :=
  if frame.instruction ≥ 2 ^ 32 then [.error .invalidRootMap]
  else
    match image.safepointMap frame.function frame.block frame.instruction with
    | none => [.error .invalidRootMap]
    | some offsets => (offsets.drop register).map (fun offset =>
        (arena.readRef32Offset ⟨frame.base, frame.byteLen⟩ offset).map ofReference)

def activeReads (image : ImageView) (roots : RootSet) : Nat → Nat → Nat → List Read
  | 0, _, _ => []
  | count + 1, frame, register =>
    match roots.frames[frame]? with
    | none => [.error .corruptLifecycle]
    | some record => frameReads image roots.frameArena record register ++
        activeReads image roots count (frame + 1) 0

def savedReads (image : ImageView) (roots : RootSet) : List Frame → Nat → List Read
  | [], _ => []
  | record :: records, register =>
    if record.function = usizeMax then savedReads image roots records 0
    else frameReads image roots.frameArena record register ++ savedReads image roots records 0

/-- The register cursor belongs to the saved frames once the active ones are done. -/
def savedRegister (c : Collector) (roots : RootSet) : Nat :=
  if c.frame < roots.frameDepth then 0 else c.register

def frameStage (c : Collector) : List Read :=
  activeReads image roots (roots.frameDepth - c.frame) c.frame c.register ++
    savedReads image roots (roots.savedFrames.drop c.savedFrame) (c.savedRegister roots)

def staticStage (c : Collector) : List Read :=
  staticReads roots.statics (image.fields.drop c.staticField) ++ frameStage image roots c

def externalStage (c : Collector) : List Read :=
  entryReads (roots.external.drop c.externalRoot) ++ staticStage image roots c

def failureStage (c : Collector) : List Read :=
  failureReads (roots.taskFailures.drop c.taskFailure) ++ externalStage image roots c

/-- All root reads ahead of the cursors of `c`. -/
def pending (c : Collector) : List Read :=
  entryReads (roots.runtimeRoots.drop c.runtimeRoot) ++ failureStage image roots c

/-! ## Popping the list -/

/-- A computation pops the head of `reads`: its result meets `keep`, and `rest` says what is ahead
of it. -/
def Pops (keep : Collector → Prop) (rest : Collector → List Read) :
    List Read → Except VmFault (Collector × Option RuntimeValue) → Prop
  | [], r => ∃ c', r = .ok (c', none) ∧ keep c' ∧ rest c' = []
  | .error fault :: _, r => r = .error fault
  | .ok value :: reads, r => ∃ c', r = .ok (c', some value) ∧ keep c' ∧ rest c' = reads

/-- A stage whose own reads are used up hands over to the next one. -/
theorem Pops.later {keep keep' : Collector → Prop} {rest rest' : Collector → List Read}
    {reads : List Read} {r : Except VmFault (Collector × Option RuntimeValue)}
    (h : Pops keep rest reads r) (hk : ∀ c', keep c' → keep' c' ∧ rest' c' = rest c') : Pops keep' rest' reads r := by
  match reads, h with
  | [], ⟨c', e, hc, hr⟩ | .ok _ :: _, ⟨c', e, hc, hr⟩ => exact ⟨c', e, (hk c' hc).1, (hk c' hc).2.trans hr⟩
  | .error _ :: _, e => exact e

theorem firstEntry_spec (entries : List (Option Ref32)) (n : Nat) :
    (∃ r k, firstEntry (entries.drop n) n = (k, some r) ∧
      entryReads (entries.drop n) = .ok (.reference r) :: entryReads (entries.drop k)) ∨
    (∃ k, firstEntry (entries.drop n) n = (k, none) ∧ entryReads (entries.drop n) = [] ∧
      entryReads (entries.drop k) = []) := by
  generalize hl : entries.drop n = l
  induction l generalizing n with
  | nil =>
    refine .inr ⟨n, rfl, rfl, ?_⟩
    rw [hl]
    rfl
  | cons entry l ih =>
    have hrest : entries.drop (n + 1) = l := by rw [← drop_drop, hl, drop_one, tail_cons]
    cases entry with
    | some r =>
      refine .inl ⟨r, n + 1, rfl, ?_⟩
      rw [hrest]
      rfl
    | none => exact ih (n + 1) hrest

theorem firstStatic_spec (statics : StaticArena) (fields : List FieldSlot) (n : Nat) :
    (∃ slot k, firstStatic (fields.drop n) n = (k, some slot) ∧ staticReads statics (fields.drop n) =
        (statics.reference slot).map ofReference :: staticReads statics (fields.drop k)) ∨
    (∃ k, firstStatic (fields.drop n) n = (k, none) ∧ staticReads statics (fields.drop n) = [] ∧
      staticReads statics (fields.drop k) = []) := by
  generalize hl : fields.drop n = l
  induction l generalizing n with
  | nil =>
    refine .inr ⟨n, rfl, rfl, ?_⟩
    rw [hl]
    rfl
  | cons field l ih =>
    have hrest : fields.drop (n + 1) = l := by rw [← drop_drop, hl, drop_one, tail_cons]
    obtain ⟨kind, slot⟩ := field
    have hnone : kind ≠ 7 ∨ slot = none →
        firstStatic (⟨kind, slot⟩ :: l) n = firstStatic l (n + 1) ∧
          staticReads statics (⟨kind, slot⟩ :: l) = staticReads statics l := by
      intro h
      cases slot with
      | none => exact ⟨rfl, by simp [staticReads]⟩
      | some =>
        have hk : kind ≠ 7 := h.resolve_right (by simp)
        exact ⟨by simp [firstStatic, hk], by simp [staticReads, hk]⟩
    by_cases hk : kind ≠ 7 ∨ slot = none
    · rw [(hnone hk).1, (hnone hk).2]
      exact ih (n + 1) hrest
    · rw [not_or, not_not] at hk
      obtain ⟨slot, rfl⟩ := Option.ne_none_iff_exists'.mp hk.2
      refine .inl ⟨slot, n + 1, by simp [firstStatic, hk.1], ?_⟩
      rw [hrest]
      simp [staticReads, hk.1]

section Frames

variable {image : ImageView} {roots : RootSet}

theorem frameRoot_spec (arena : FrameArena) (record : Frame) (register : Nat) :
    (frameReads image arena record register = [] → frameRoot image arena record register = .ok none) ∧
    (∀ fault reads, frameReads image arena record register = .error fault :: reads →
      frameRoot image arena record register = .error fault) ∧
    ∀ value reads, frameReads image arena record register = .ok value :: reads →
      frameRoot image arena record register = .ok (some value) ∧
        frameReads image arena record (register + 1) = reads := by
  unfold frameReads frameRoot
  by_cases hi : record.instruction ≥ 2 ^ 32
  · rw [if_pos hi, if_pos hi, if_pos hi]
    simp
  · rw [if_neg hi, if_neg hi, if_neg hi]
    cases hmap : image.safepointMap record.function record.block record.instruction with
    | none => simp
    | some offsets =>
      dsimp only
      by_cases hreg : register < offsets.length
      · rw [drop_eq_getElem_cons hreg, getElem?_eq_getElem hreg, map_cons]
        dsimp only
        cases arena.readRef32Offset ⟨record.base, record.byteLen⟩ offsets[register] with
        | error | ok => simp [Except.map]
      · rw [drop_eq_nil_of_le (by omega), getElem?_eq_none (by omega)]
        simp

theorem activeReads_some {record : Frame} {frame : Nat} (count register : Nat)
    (h : roots.frames[frame]? = some record) :
    activeReads image roots (count + 1) frame register = frameReads image roots.frameArena record register ++
        activeReads image roots count (frame + 1) 0 := by
  rw [activeReads, h]

theorem activeRoot_spec (count frame register : Nat) : (activeReads image roots count frame register = [] →
      activeRoot image roots count frame register = .ok (frame + count, if count = 0 then register else 0, none)) ∧
    (∀ fault reads, activeReads image roots count frame register = .error fault :: reads →
      activeRoot image roots count frame register = .error fault) ∧
    ∀ value reads, activeReads image roots count frame register = .ok value :: reads →
      ∃ frame' register', frame ≤ frame' ∧ frame' < frame + count ∧
        activeRoot image roots count frame register = .ok (frame', register', some value) ∧
        activeReads image roots (frame + count - frame') frame' register' = reads := by
  induction count generalizing frame register with
  | zero => exact ⟨fun _ => rfl, nofun, nofun⟩
  | succ count ih =>
    cases hrec : roots.frames[frame]? with
    | none =>
      rw [activeReads, activeRoot, hrec]
      simp
    | some record =>
      rw [activeReads_some count register hrec, activeRoot, hrec]
      dsimp only
      obtain ⟨hnil, herr, hok⟩ := @frameRoot_spec image roots.frameArena record register
      cases hreads : frameReads image roots.frameArena record register with
      | nil =>
        rw [hnil hreads, nil_append]
        obtain ⟨ih1, ih2, ih3⟩ := ih (frame + 1) 0
        simp only [ok_bind]
        refine ⟨fun h => ?_, ih2, fun value reads h => ?_⟩
        · rw [ih1 h, if_neg (Nat.succ_ne_zero count)]
          simp only [ite_self, Except.ok.injEq, Prod.mk.injEq, and_true]
          omega
        · obtain ⟨frame', register', hge, hlt, e, hrest⟩ := ih3 value reads h
          refine ⟨frame', register', by omega, by omega, e, ?_⟩
          rw [show frame + (count + 1) - frame' = frame + 1 + count - frame' by omega]
          exact hrest
      | cons read reads =>
        cases read with
        | error fault =>
          rw [herr fault reads hreads]
          simp
        | ok value =>
          obtain ⟨e, hrest⟩ := hok value reads hreads
          rw [e, cons_append]
          refine ⟨(fun h => by cases h), (fun _ _ h => by cases h), fun value' reads' h => ?_⟩
          obtain ⟨rfl, rfl⟩ := h
          refine ⟨frame, register + 1, Nat.le_refl _, by omega, rfl, ?_⟩
          rw [Nat.add_sub_cancel_left, activeReads_some count (register + 1) hrec, hrest]

theorem savedRoot_spec (records : List Frame) (n register : Nat) :
    (savedReads image roots (records.drop n) register = [] →
      ∃ k register', savedRoot image roots (records.drop n) n register = .ok (k, register', none) ∧
        savedReads image roots (records.drop k) register' = []) ∧
    (∀ fault reads, savedReads image roots (records.drop n) register = .error fault :: reads →
      savedRoot image roots (records.drop n) n register = .error fault) ∧
    ∀ value reads, savedReads image roots (records.drop n) register = .ok value :: reads →
      ∃ k register', savedRoot image roots (records.drop n) n register = .ok (k, register', some value) ∧
        savedReads image roots (records.drop k) register' = reads := by
  generalize hl : records.drop n = l
  induction l generalizing n register with
  | nil =>
    refine ⟨fun _ => ⟨n, register, rfl, ?_⟩, nofun, nofun⟩
    rw [hl]
    rfl
  | cons record l ih =>
    have hrest : records.drop (n + 1) = l := by
      rw [← drop_drop, hl, drop_one, tail_cons]
    rw [savedReads, savedRoot]
    by_cases hempty : record.function = usizeMax
    · rw [if_pos hempty, if_pos hempty]
      exact ih (n + 1) 0 hrest
    · rw [if_neg hempty, if_neg hempty]
      obtain ⟨hnil, herr, hok⟩ := @frameRoot_spec image roots.frameArena record register
      cases hreads : frameReads image roots.frameArena record register with
      | nil =>
        rw [hnil hreads, nil_append]
        exact ih (n + 1) 0 hrest
      | cons read reads =>
        cases read with
        | error fault =>
          rw [herr fault reads hreads]
          simp
        | ok value =>
          obtain ⟨e, hframe⟩ := hok value reads hreads
          rw [e, cons_append]
          refine ⟨nofun, nofun, fun value' reads' h => ?_⟩
          obtain ⟨rfl, rfl⟩ := h
          refine ⟨n, register + 1, rfl, ?_⟩
          rw [hl, savedReads, if_neg hempty, hframe]

end Frames

/-! ## The stages -/

section Stages

variable (image : ImageView) (roots : RootSet) (c : Collector)

/-- Only the frame cursors moved. -/
def FrameCursors (c' : Collector) : Prop :=
  ∃ frame savedFrame register, c' = { c with frame := frame, savedFrame := savedFrame, register := register }

def StaticCursors (c' : Collector) : Prop :=
  ∃ staticField, FrameCursors { c with staticField := staticField } c'

def ExternalCursors (c' : Collector) : Prop :=
  ∃ externalRoot, StaticCursors { c with externalRoot := externalRoot } c'

def FailureCursors (c' : Collector) : Prop :=
  ∃ taskFailure, ExternalCursors { c with taskFailure := taskFailure } c'

/-- Only root cursors moved. -/
def RootCursors (c' : Collector) : Prop :=
  ∃ runtimeRoot, FailureCursors { c with runtimeRoot := runtimeRoot } c'

theorem nextFrameRoot_pops : Pops (FrameCursors c) (frameStage image roots)
    (frameStage image roots c) (c.nextFrameRoot image roots) := by
  obtain ⟨hnil, herr, hok⟩ := @activeRoot_spec image roots (roots.frameDepth - c.frame) c.frame c.register
  unfold nextFrameRoot
  cases hactive : activeReads image roots (roots.frameDepth - c.frame) c.frame c.register with
  | nil =>
    -- the active frames are done: their cursor is at the depth and the register is free
    rw [hnil hactive]
    simp only [ok_bind]
    have hregister : (if roots.frameDepth - c.frame = 0 then c.register else 0) =
        c.savedRegister roots := by
      unfold savedRegister
      by_cases hlt : c.frame < roots.frameDepth
      · rw [if_neg (by omega), if_pos hlt]
      · rw [if_pos (by omega), if_neg hlt]
    rw [hregister]
    obtain ⟨snil, serr, sok⟩ := @savedRoot_spec image roots roots.savedFrames c.savedFrame (c.savedRegister roots)
    have hdone : ∀ k register, frameStage image roots
        { c with frame := c.frame + (roots.frameDepth - c.frame), savedFrame := k,
                 register := register } =
          savedReads image roots (roots.savedFrames.drop k) register := by
      intro k register
      have hge : ¬ c.frame + (roots.frameDepth - c.frame) < roots.frameDepth := by omega
      have hzero : roots.frameDepth - (c.frame + (roots.frameDepth - c.frame)) = 0 := by omega
      simp only [frameStage, savedRegister, if_neg hge, hzero, activeReads, nil_append]
    rw [frameStage, hactive, nil_append]
    cases hsaved : savedReads image roots (roots.savedFrames.drop c.savedFrame)
        (c.savedRegister roots) with
    | nil =>
      obtain ⟨k, register, e, hrest⟩ := snil hsaved
      rw [e]
      exact ⟨_, rfl, ⟨_, _, _, rfl⟩, (hdone k register).trans hrest⟩
    | cons read reads =>
      cases read with
      | error fault =>
        rw [serr fault reads hsaved]
        rfl
      | ok value =>
        obtain ⟨k, register, e, hrest⟩ := sok value reads hsaved
        rw [e]
        exact ⟨_, rfl, ⟨_, _, _, rfl⟩, (hdone k register).trans hrest⟩
  | cons read reads =>
    rw [frameStage, hactive, cons_append]
    cases read with
    | error fault =>
      rw [herr fault reads hactive]
      rfl
    | ok value =>
      obtain ⟨frame', register', hge, hlt, e, hrest⟩ := hok value reads hactive
      rw [e]
      refine ⟨_, rfl, ⟨frame', c.savedFrame, register', rfl⟩, ?_⟩
      have hdepth : c.frame + (roots.frameDepth - c.frame) - frame' = roots.frameDepth - frame' := by
        omega
      rw [hdepth] at hrest
      simp only [frameStage, savedRegister]
      rw [hrest, if_pos (by omega), if_pos (by omega)]

theorem nextStaticRoot_pops : Pops (StaticCursors c) (staticStage image roots)
    (staticStage image roots c) (c.nextStaticRoot image roots) := by
  unfold nextStaticRoot
  rcases firstStatic_spec roots.statics image.fields c.staticField with
    ⟨slot, k, e, hreads⟩ | ⟨k, e, hnil, hk⟩
  · rw [e, staticStage, hreads, cons_append]
    dsimp only
    cases roots.statics.reference slot with
    | error => rfl
    | ok => exact ⟨_, rfl, ⟨k, _, _, _, rfl⟩, rfl⟩
  · rw [e, staticStage, hnil, nil_append]
    refine (nextFrameRoot_pops image roots { c with staticField := k }).later ?_
    rintro _ ⟨frame, savedFrame, register, rfl⟩
    refine ⟨⟨k, _, _, _, rfl⟩, ?_⟩
    rw [staticStage, hk, nil_append]

theorem nextExternalRoot_pops : Pops (ExternalCursors c) (externalStage image roots)
    (externalStage image roots c) (c.nextExternalRoot image roots) := by
  unfold nextExternalRoot
  rcases firstEntry_spec roots.external c.externalRoot with ⟨r, k, e, hreads⟩ | ⟨k, e, hnil, hk⟩
  · rw [e, externalStage, hreads, cons_append]
    exact ⟨_, rfl, ⟨k, _, _, _, _, rfl⟩, rfl⟩
  · rw [e, externalStage, hnil, nil_append]
    refine (nextStaticRoot_pops image roots { c with externalRoot := k }).later ?_
    rintro _ ⟨staticField, frame, savedFrame, register, rfl⟩
    refine ⟨⟨k, _, _, _, _, rfl⟩, ?_⟩
    rw [externalStage, hk, nil_append]

theorem nextFailureRoot_pops : Pops (FailureCursors c) (failureStage image roots)
    (failureStage image roots c) (c.nextFailureRoot image roots) := by
  unfold nextFailureRoot
  by_cases hlt : c.taskFailure < roots.taskFailures.length
  · rw [getElem?_eq_getElem hlt, failureStage, drop_eq_getElem_cons hlt]
    exact ⟨_, rfl, ⟨c.taskFailure + 1, _, _, _, _, _, rfl⟩, rfl⟩
  · have hnil : roots.taskFailures.drop c.taskFailure = [] := drop_eq_nil_of_le (by omega)
    rw [getElem?_eq_none (by omega), failureStage, hnil]
    refine (nextExternalRoot_pops image roots c).later ?_
    rintro _ ⟨externalRoot, staticField, frame, savedFrame, register, rfl⟩
    refine ⟨⟨c.taskFailure, _, _, _, _, _, rfl⟩, ?_⟩
    rw [failureStage, hnil]
    rfl

/-- **The root cursor pops the list of pending reads.** -/
theorem nextRoot_spec : Pops (RootCursors c) (pending image roots) (pending image roots c)
    (c.nextRoot image roots) := by
  unfold nextRoot
  rcases firstEntry_spec roots.runtimeRoots c.runtimeRoot with ⟨r, k, e, hreads⟩ | ⟨k, e, hnil, hk⟩
  · rw [e, pending, hreads, cons_append]
    exact ⟨_, rfl, ⟨k, _, _, _, _, _, _, rfl⟩, rfl⟩
  · rw [e, pending, hnil, nil_append]
    refine (nextFailureRoot_pops image roots { c with runtimeRoot := k }).later ?_
    rintro _ ⟨taskFailure, externalRoot, staticField, frame, savedFrame, register, rfl⟩
    refine ⟨⟨k, _, _, _, _, _, _, rfl⟩, ?_⟩
    rw [pending, hk, nil_append]

variable {c} in
theorem RootCursors.same {c' : Collector} (h : RootCursors c c') : c'.phase = c.phase ∧
    c'.scan = c.scan ∧ c'.grayHead = c.grayHead ∧ c'.grayTail = c.grayTail := by
  obtain ⟨_, _, _, _, _, _, _, rfl⟩ := h
  exact ⟨rfl, rfl, rfl, rfl⟩

end Stages

/-! ## The list holds the roots -/

section Members

variable {image : ImageView} {roots : RootSet} {ref : Ref32}

theorem ofReference_eq {r : Option Ref32} : ofReference r = .reference ref ↔ r = some ref := by
  cases r <;> simp [ofReference]

theorem map_ofReference_eq {r : Except VmFault (Option Ref32)} :
    r.map ofReference = .ok (.reference ref) ↔ r = .ok (some ref) := by
  cases r with
  | error => simp [Except.map]
  | ok => simp [Except.map, ofReference_eq]

theorem mem_entryReads {entries : List (Option Ref32)} :
    .ok (.reference ref) ∈ entryReads entries ↔ some ref ∈ entries := by
  simp only [entryReads, mem_filterMap, Option.map_eq_some_iff, Except.ok.injEq, reference.injEq]
  constructor
  · rintro ⟨_, he, r, rfl, rfl⟩
    exact he
  · exact fun he => ⟨_, he, ref, rfl, rfl⟩

theorem mem_failureReads {failures : List (Option Ref32)} :
    .ok (.reference ref) ∈ failureReads failures ↔ some ref ∈ failures := by
  simp only [failureReads, mem_map, Except.ok.injEq, ofReference_eq]
  exact ⟨fun ⟨_, he, hr⟩ => hr ▸ he, fun he => ⟨_, he, rfl⟩⟩

theorem mem_staticReads {statics : StaticArena} {fields : List FieldSlot} :
    .ok (.reference ref) ∈ staticReads statics fields ↔
      ∃ slot, ⟨7, some slot⟩ ∈ fields ∧ statics.reference slot = .ok (some ref) := by
  simp only [staticReads, mem_filterMap]
  constructor
  · rintro ⟨⟨_, slot⟩, hf, hread⟩
    dsimp only at hread
    split at hread
    · rename_i hk
      obtain ⟨slot, rfl, hr⟩ := Option.map_eq_some_iff.mp hread
      rw [hk] at hf
      exact ⟨slot, hf, map_ofReference_eq.mp hr⟩
    · cases hread
  · rintro ⟨slot, hf, hr⟩
    exact ⟨_, hf, by simp [map_ofReference_eq.mpr hr]⟩

theorem mem_frameReads {arena : FrameArena} {record : Frame} :
    .ok (.reference ref) ∈ frameReads image arena record 0 ↔ FrameHolds image arena record ref := by
  unfold frameReads FrameHolds
  by_cases hi : record.instruction ≥ 2 ^ 32
  · rw [if_pos hi]
    simp only [mem_singleton, reduceCtorEq, false_iff, not_and]
    intro hlt
    omega
  · rw [if_neg hi]
    cases image.safepointMap record.function record.block record.instruction with
    | none => simp
    | some offsets =>
      simp only [drop_zero, mem_map, map_ofReference_eq, Option.some.injEq]
      refine ⟨fun h => ⟨by omega, offsets, rfl, h⟩, ?_⟩
      rintro ⟨-, _, rfl, h⟩
      exact h

theorem mem_activeReads (count frame : Nat) : .ok (.reference ref) ∈ activeReads image roots count frame 0 ↔
      ∃ record ∈ (roots.frames.drop frame).take count, FrameHolds image roots.frameArena record ref := by
  induction count generalizing frame with
  | zero => simp [activeReads]
  | succ count ih =>
    by_cases hlt : frame < roots.frames.length
    · have hget := getElem?_eq_getElem hlt
      rw [activeReads_some count 0 hget, mem_append, mem_frameReads, ih,
        drop_eq_getElem_cons hlt, take_succ_cons]
      simp only [mem_cons, exists_eq_or_imp]
    · rw [activeReads, getElem?_eq_none (by omega), drop_eq_nil_of_le (by omega)]
      simp

theorem mem_savedReads (records : List Frame) : .ok (.reference ref) ∈ savedReads image roots records 0 ↔
      ∃ record ∈ records, record.function ≠ usizeMax ∧ FrameHolds image roots.frameArena record ref := by
  induction records with
  | nil => simp [savedReads]
  | cons record _ ih =>
    rw [savedReads]
    by_cases hempty : record.function = usizeMax
    · rw [if_pos hempty, ih]
      simp [hempty]
    · rw [if_neg hempty, mem_append, mem_frameReads, ih]
      simp [hempty]

/-- **At the start of a collection the pending reads are the roots.** -/
theorem root_iff_pending (c : Collector) :
    Root image roots ref ↔ .ok (.reference ref) ∈ pending image roots c.start := by
  have hactive := @mem_activeReads image roots ref roots.frameDepth 0
  have hsaved := @mem_savedReads image roots ref roots.savedFrames
  have hregister : c.start.savedRegister roots = 0 := by
    unfold savedRegister
    split <;> rfl
  have hpending : pending image roots c.start = entryReads roots.runtimeRoots ++
      (failureReads roots.taskFailures ++ (entryReads roots.external ++
        (staticReads roots.statics image.fields ++ (activeReads image roots roots.frameDepth 0 0 ++
          savedReads image roots roots.savedFrames (c.start.savedRegister roots))))) := rfl
  rw [root_iff, hpending, hregister]
  simp only [mem_append, mem_entryReads, mem_failureReads, mem_staticReads, hactive, hsaved, drop_zero]

end Members

end Collector

end Compukter
