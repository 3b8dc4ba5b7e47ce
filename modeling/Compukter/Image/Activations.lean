/-
The frames of a task that runs alone.

An activation is entered by `start`, by a call or by the initializer of a type, and left by a return or
by an exception.  Between these, registers of live frames are written.  The rest of the interpreter does
not touch the arena; which operation comes next is left open.

In every such run the frames lie in the arena like a stack.  The arena that admission plans is then large
enough for every call below the call depth, provided its size is one that the arena can use.
-/
import Compukter.Image.Regions

namespace Compukter.Image

open Bytes Fallible List Nat FrameStack

/-! ## The operations -/

/-- A live frame: its function and its bytes. -/
structure Activation where
  function : Nat
  reservation : FrameReservation
  deriving DecidableEq

/-- The arena and the live frames, the innermost one first. -/
structure Activations where
  arena : FrameStack
  frames : List Activation
  started : Bool

inductive FrameOp
  /-- `start`: the entry function. -/
  | start
  /-- A call instruction or a type initializer. -/
  | enter (target : Nat)
  /-- A return, or an exception that the frame does not handle. -/
  | leave
  /-- A write to a component of a register, `depth` frames below the innermost one. -/
  | store (depth value component bits : Nat)
  deriving DecidableEq

inductive StackEnd
  | alreadyStarted | notRunnable | stackOverflow
  | refused (r : Refusal)
  | fault (f : VmFault)
  /-- Not of the source: an index out of bounds. -/
  | panics
  deriving DecidableEq

namespace FrameOp

variable (image : ExecutionImage)

def start_ (s : Activations) : Except StackEnd Activations := do
  demand (!s.started) .alreadyStarted
  let entry ← demandSome image.functions[image.entry]? .notRunnable
  let (arena, reservation) ← (s.arena.push entry.frameLayout).mapError fun _ => .notRunnable
  -- the entry is written to the first of the call depth's frames
  demand (0 < image.maximumCallDepth) .panics
  return { arena := arena, frames := [⟨image.entry, reservation⟩], started := true }

def enter_ (s : Activations) (target : Nat) : Except StackEnd Activations := do
  let function ← demandSome image.functions[target]? (.fault .invalidResolvedId)
  demand (s.frames.length < image.maximumCallDepth) .stackOverflow
  let (arena, reservation) ← (s.arena.push function.frameLayout).mapError .refused
  return { s with arena := arena, frames := ⟨target, reservation⟩ :: s.frames }

def leave_ (s : Activations) : Except StackEnd Activations :=
  match s.frames with
  | [] => .error .notRunnable
  | frame :: rest => do
    let arena ← (s.arena.pop frame.reservation).mapError .refused
    return { s with arena := arena, frames := rest }

def store_ (s : Activations) (depth value component bits : Nat) :
    Except StackEnd Activations := do
  let frame ← demandSome s.frames[depth]? (.fault .invalidStoragePlan)
  let function ← demandSome image.functions[frame.function]? (.fault .invalidResolvedId)
  let c ← demandSome ((function.frameLayout.values[value]?).bind (·[component]?)) (.fault .invalidValueType)
  let arena ← (s.arena.storeComponent frame.reservation.base c bits).mapError .fault
  return { s with arena := arena }

def run (s : Activations) : FrameOp → Except StackEnd Activations
  | start => start_ image s
  | enter target => enter_ image s target
  | leave => leave_ s
  | store depth value component bits => store_ image s depth value component bits

/-- The operations that the interpreter performs in a state: its indices are those of the image. -/
def Applies (s : Activations) : FrameOp → Prop
  | start => s.started = false
  | enter target => s.frames ≠ [] ∧ target < image.functions.length
  | leave => s.frames ≠ []
  | store depth value component _ => ∃ frame function c, s.frames[depth]? = some frame ∧
      image.functions[frame.function]? = some function ∧
      (function.frameLayout.values[value]?).bind (·[component]?) = some c

end FrameOp

/-! ## Runs -/

/-- The functions of all modules, in the order in which the image numbers them. -/
def allFunctions (artifact : DecodedArtifact) : List Function := artifact.modules.flatMap (·.functions)

/-- A function with a body. -/
def Concrete (artifact : DecodedArtifact) (target : Nat) : Prop :=
  ∃ function, (allFunctions artifact)[target]? = some function ∧ function.isAbstract = false

/-- An operation that enters no abstract function. -/
def FrameOp.EntersConcrete (artifact : DecodedArtifact) : FrameOp → Prop
  | enter target => Concrete artifact target
  | _ => True

/-- The states of the runs whose calls all enter functions with a body. -/
inductive Reached (artifact : DecodedArtifact) (image : ExecutionImage) (arena : FrameStack) :
    Activations → Prop
  | fresh : Reached artifact image arena ⟨arena, [], false⟩
  | step {s s' : Activations} (op : FrameOp) : Reached artifact image arena s → op.Applies image s →
      op.EntersConcrete artifact → op.run image s = .ok s' → Reached artifact image arena s'

/-- **The arena never refuses a frame**: below the call depth every function with a body can be entered,
every live frame can be released, and an operation fails only by exceeding the call depth. -/
structure NeverRefuses (artifact : DecodedArtifact) (image : ExecutionImage) (s : Activations) : Prop where
  push : s.frames.length < image.maximumCallDepth → ∀ target function, Concrete artifact target →
    image.functions[target]? = some function → ∃ result, s.arena.push function.frameLayout = .ok result
  pop : ∀ frame ∈ s.frames, ∃ arena, s.arena.pop frame.reservation = .ok arena
  ends : ∀ (op : FrameOp) (e : StackEnd), op.Applies image s → op.EntersConcrete artifact →
    op.run image s = .error e → e = .stackOverflow ∧ image.maximumCallDepth ≤ s.frames.length

/-! ## The functions of an image -/

variable {artifact : DecodedArtifact}

theorem resolveFunctionRecord_layout {o : Offsets} {m : DecodedModule}
    {moduleId functionId : Nat} {function : Function} {resolved : ResolvedFunction}
    (h : resolveFunctionRecord artifact o m moduleId functionId function = .ok resolved) :
    derive function.values = some resolved.frameLayout := by
  obtain ⟨_, _, h⟩ := bind_eq_ok.mp h
  obtain ⟨nominal, _, h⟩ := bind_eq_ok.mp h
  cases nominal with
  | functionType =>
    obtain ⟨_, _, h⟩ := bind_eq_ok.mp h
    obtain ⟨_, hlayout, h⟩ := bind_eq_ok.mp h
    iterate 7 obtain ⟨_, _, h⟩ := bind_eq_ok.mp h
    cases h
    exact demandSome_eq_ok.mp hlayout
  | inlineValue | classType | interfaceType | arrayType => cases h

/-- **Functions keep their number and their layout.** -/
theorem resolveFunctions_layout {o : Offsets} {functions : List ResolvedFunction}
    (h : resolveFunctions artifact o = .ok functions) :
    List.Forall₂ (fun function resolved => derive function.values = some resolved.frameLayout)
      (allFunctions artifact) functions := by
  obtain ⟨_, htables, h⟩ := bind_eq_ok.mp h
  cases h
  have hmodules := mapM_eq_ok htables
  apply rel_flatten
  rw [forall₂_map_left_iff, ← zipIdx_map_fst 0 artifact.modules, forall₂_map_left_iff]
  refine hmodules.imp fun entry table hentry => ?_
  rw [← zipIdx_map_fst 0 entry.1.functions, forall₂_map_left_iff]
  exact (mapM_eq_ok hentry).imp fun _ _ hrecord => resolveFunctionRecord_layout hrecord

/-! ## Charges -/

theorem frameCharge_eq_ok {values : List FunctionValue} {charge : Nat} (h : frameCharge values = .ok charge) :
    ∃ shape, derive values = some shape ∧ charge = (shape.byteLen + 7) / 8 * 8 := by
  obtain ⟨shape, hshape, h⟩ := bind_eq_ok.mp h
  obtain ⟨sum, hsum, h⟩ := bind_eq_ok.mp h
  obtain ⟨-, rfl⟩ := checkedU64_eq_ok.mp hsum
  cases h
  exact ⟨shape, demandSome_eq_ok.mp hshape, rfl⟩

/-- The fold over the functions is a maximum: it bounds every charge, and it starts at zero. -/
theorem foldlM_charge {functions : List Function} {start largest : Nat}
    (h : functions.foldlM (fun largest function => do return max largest (← frameCharge function.values))
      start = .ok largest) : start ≤ largest ∧ (∀ function ∈ functions, ∃ charge,
      frameCharge function.values = .ok charge ∧ charge ≤ largest) ∧
      (start = largest ∨ ∃ function ∈ functions, frameCharge function.values = .ok largest) := by
  induction functions generalizing start with
  | nil =>
    cases h
    exact ⟨le_refl _, (fun f hf => absurd hf not_mem_nil), .inl rfl⟩
  | cons function rest ih =>
    obtain ⟨_, hnext, h⟩ := bind_eq_ok.mp h
    obtain ⟨charge, hcharge, hmax⟩ := bind_eq_ok.mp hnext
    cases hmax
    obtain ⟨hle, hrest, hreached⟩ := ih h
    refine ⟨by omega, fun f hf => ?_, ?_⟩
    · rcases mem_cons.mp hf with rfl | hf
      · exact ⟨charge, hcharge, by omega⟩
      · exact hrest f hf
    · rcases hreached with hmax | ⟨f, hf, hcharge'⟩
      · rcases le_total charge start with hless | hless
        · exact .inl (by omega)
        · refine .inr ⟨function, mem_cons_self, ?_⟩
          rw [hcharge]
          exact congrArg Except.ok (by omega)
      · exact .inr ⟨f, mem_cons_of_mem _ hf, hcharge'⟩

/-- What the frames of a run rely on: the arena holds a full stack of the largest frames. -/
structure Planned (artifact : DecodedArtifact) (image : ExecutionImage) (largest stackBytes : Nat) : Prop where
  layouts : List.Forall₂ (fun function resolved => derive function.values = some resolved.frameLayout)
    (allFunctions artifact) image.functions
  charges : largestFrameCharge artifact = .ok largest
  room : largest * image.maximumCallDepth ≤ stackBytes
  small : stackBytes < 2 ^ 32

section Charges

variable {artifact : DecodedArtifact} {image : ExecutionImage} {largest stackBytes target : Nat}
  {resolved : ResolvedFunction}

theorem Planned.derived (hplan : Planned artifact image largest stackBytes)
    (h : image.functions[target]? = some resolved) : ∃ function, (allFunctions artifact)[target]? = some function ∧
      derive function.values = some resolved.frameLayout := by
  obtain ⟨hlength, hget⟩ := forall₂_iff_get.mp hplan.layouts
  obtain ⟨hlt, rfl⟩ := List.getElem?_eq_some_iff.mp h
  exact ⟨_, getElem?_eq_getElem (hlength ▸ hlt), hget target (hlength ▸ hlt) hlt⟩

/-- The frame of a function with a body takes at most the largest charge. -/
theorem Planned.charge (hplan : Planned artifact image largest stackBytes)
    (hdepth : 0 < image.maximumCallDepth) (hconcrete : Concrete artifact target)
    (h : image.functions[target]? = some resolved) :
    ∃ n, align resolved.frameLayout.byteLen 8 = some n ∧ n ≤ largest := by
  obtain ⟨function, hfunction, hderive⟩ := hplan.derived h
  obtain ⟨_, hfunction', hbody⟩ := hconcrete
  cases hfunction.symm.trans hfunction'
  have hmember : function ∈ concreteFunctions artifact :=
    mem_filter.mpr ⟨mem_of_getElem? hfunction, by rw [hbody]; rfl⟩
  obtain ⟨-, hbounds, -⟩ := foldlM_charge hplan.charges
  obtain ⟨charge, hcharge, hle⟩ := hbounds function hmember
  obtain ⟨_, hshape, hsum⟩ := frameCharge_eq_ok hcharge
  cases hderive.symm.trans hshape
  have hfull : largest ≤ largest * image.maximumCallDepth := Nat.le_mul_of_pos_right _ hdepth
  have hroom := hplan.room
  have hsmall := hplan.small
  refine ⟨charge, ?_, hle⟩
  unfold align
  rw [if_pos (by omega), hsum]

end Charges

/-! ## Frames as a stack -/

/-- The frames, innermost first, lie next to each other and take this many bytes in all.  A function
without registers takes no bytes; its frame stands at zero.  No frame is larger than `largest`. -/
inductive Stacked (image : ExecutionImage) (largest : Nat) : List Activation → Nat → Prop
  | nil : Stacked image largest [] 0
  | cons {rest : List Activation} {used target n : Nat} {function : ResolvedFunction} :
      Stacked image largest rest used → image.functions[target]? = some function →
      align function.frameLayout.byteLen 8 = some n → n ≤ largest →
      Stacked image largest (⟨target, ⟨if n = 0 then 0 else used, n⟩⟩ :: rest) (used + n)

section Frames

variable {artifact : DecodedArtifact} {image : ExecutionImage} {largest stackBytes used : Nat}
  {s : Activations} {frame : Activation}

section

variable {frames : List Activation} (h : Stacked image largest frames used)
include h

theorem Stacked.used_mod : used % 8 = 0 := by
  induction h with
  | nil => rfl
  | cons _ _ halign =>
    have hunits := align_eight_mod halign
    omega

theorem Stacked.used_le : used ≤ largest * frames.length := by
  induction h with
  | nil => exact zero_le _
  | cons =>
    rw [length_cons, mul_succ]
    omega

/-- A live frame has the size of its function and lies in front of the unused bytes. -/
theorem Stacked.mem (hmem : frame ∈ frames) : ∃ function, image.functions[frame.function]? = some function ∧
      align function.frameLayout.byteLen 8 = some frame.reservation.byteLen ∧ frame.reservation.base % 8 = 0 ∧
      frame.reservation.base + frame.reservation.byteLen ≤ used := by
  induction h with
  | nil => cases hmem
  | @cons _ used _ n function hrest hfunction halign _ ih =>
    rcases mem_cons.mp hmem with rfl | hmem
    · refine ⟨function, hfunction, halign, ?_, ?_⟩
      · show (if n = 0 then 0 else used) % 8 = 0
        split
        · rfl
        · exact hrest.used_mod
      · show (if n = 0 then 0 else used) + n ≤ used + n
        split
        · omega
        · omega
    · obtain ⟨function', hfunction', halign', hbase, hend⟩ := ih hmem
      exact ⟨function', hfunction', halign', hbase, by omega⟩

end

/-- **The invariant of a run.**  The arena is packed behind the frames whenever its size allows it. -/
structure Stacking (image : ExecutionImage) (largest stackBytes : Nat) (s : Activations) (used : Nat) :
    Prop where
  frames : Stacked image largest s.frames used
  depth : s.frames.length ≤ image.maximumCallDepth
  started : s.started = false → s.frames = []
  length : s.arena.length = stackBytes
  packed : stackBytes % 8 = 0 → s.arena.Packed used

/-- The sizes of arenas that can be used: whole units, or nothing ever to store. -/
def Usable (largest stackBytes : Nat) : Prop := stackBytes % 8 = 0 ∨ largest = 0

theorem push_empty {a : FrameStack} {layout : FrameShape} (h : align layout.byteLen 8 = some 0) :
    a.push layout = .ok (a, ⟨0, 0⟩) := by
  unfold push
  rw [h]
  rfl

variable (h : Stacking image largest stackBytes s used) (hplan : Planned artifact image largest stackBytes)
  (husable : Usable largest stackBytes)
include h husable

include hplan in
theorem Stacking.push (hroom : s.frames.length < image.maximumCallDepth) {target : Nat} {function : ResolvedFunction}
    (hconcrete : Concrete artifact target) (hfunction : image.functions[target]? = some function) :
    ∃ arena n, s.arena.push function.frameLayout = .ok (arena, ⟨if n = 0 then 0 else used, n⟩) ∧
      align function.frameLayout.byteLen 8 = some n ∧ n ≤ largest ∧ arena.length = stackBytes ∧
      (stackBytes % 8 = 0 → arena.Packed (used + n)) := by
  obtain ⟨n, halign, hle⟩ := hplan.charge (by omega) hconcrete hfunction
  rcases husable with haligned | rfl
  · have hnext : largest * (s.frames.length + 1) ≤ largest * image.maximumCallDepth :=
      mul_le_mul_left _ hroom
    rw [mul_succ] at hnext
    have hbound := h.frames.used_le
    have hplanned := hplan.room
    obtain ⟨arena, hpush, hlength, hpacked⟩ := push_packed (h.packed haligned) halign
      (by rw [h.length]; omega)
    exact ⟨arena, n, hpush, halign, hle, hlength.trans h.length, fun _ => hpacked⟩
  · -- no frame takes any bytes
    obtain rfl : n = 0 := by omega
    exact ⟨s.arena, 0, push_empty halign, halign, hle, h.length, h.packed⟩

theorem Stacking.pop (hmem : frame ∈ s.frames) :
    ∃ arena, s.arena.pop frame.reservation = .ok arena ∧ arena.length = stackBytes ∧
      (frame.reservation.byteLen = 0 → arena = s.arena) ∧
      (stackBytes % 8 = 0 → frame.reservation.base + frame.reservation.byteLen = used →
        frame.reservation.byteLen ≠ 0 → arena.Packed frame.reservation.base) := by
  obtain ⟨_, -, halign, hbase, hend⟩ := h.frames.mem hmem
  by_cases hzero : frame.reservation.byteLen = 0
  · refine ⟨s.arena, ?_, h.length, fun _ => rfl, fun _ _ hsome => absurd hzero hsome⟩
    unfold FrameStack.pop FrameStack.release
    rw [if_pos hzero]
  · have hbound := h.frames.used_le
    rcases husable with haligned | rfl
    · obtain ⟨arena, hpop, hlength, hpacked⟩ := pop_packed (h.packed haligned) hbase
        (align_eight_mod halign) (pos_of_ne_zero hzero) hend
      exact ⟨arena, hpop, hlength.trans h.length, fun hnone => absurd hnone hzero, fun _ hlast _ => hpacked hlast⟩
    · omega

/-! ### One operation -/

/-- How an operation ends: the invariant goes on, or the call depth is reached. -/
def Continues (image : ExecutionImage) (largest stackBytes : Nat) (s : Activations)
    (result : Except StackEnd Activations) : Prop :=
  (∃ s' used', result = .ok s' ∧ Stacking image largest stackBytes s' used') ∨
    (result = .error .stackOverflow ∧ image.maximumCallDepth ≤ s.frames.length)

/-- What admission says about the entry. -/
def EntryConcrete (artifact : DecodedArtifact) (image : ExecutionImage) : Prop :=
  Concrete artifact image.entry ∧ image.entry < image.functions.length

include hplan in
theorem start_continues (hdepth : 0 < image.maximumCallDepth) (hentry : EntryConcrete artifact image)
    (hstarted : s.started = false) : Continues image largest stackBytes s (FrameOp.start_ image s) := by
  have hempty := h.started hstarted
  obtain ⟨hconcrete, hlt⟩ := hentry
  have hfunction := getElem?_eq_getElem hlt
  obtain ⟨arena, n, hpush, halign, hle, hlength, hpacked⟩ :=
    h.push hplan husable (by rw [hempty]; exact hdepth) hconcrete hfunction
  have hused : used = 0 := by
    have hbound := h.frames.used_le
    rw [hempty] at hbound
    exact le_zero.mp hbound
  subst hused
  refine .inl ⟨⟨arena, [⟨image.entry, ⟨if n = 0 then 0 else 0, n⟩⟩], true⟩, 0 + n, ?_, ?_⟩
  · unfold FrameOp.start_
    simp only [hstarted, hfunction, demand, demandSome, hpush, hdepth, Except.mapError, Bool.not_false,
      decide_true, if_true, ok_bind, pure_eq_ok]
  · exact ⟨.cons .nil hfunction halign hle, hdepth, (fun hf => by cases hf), hlength, hpacked⟩

open FrameOp

include hplan in
theorem enter_continues {target : Nat} (hlive : s.frames ≠ []) (hlt : target < image.functions.length)
    (hconcrete : Concrete artifact target) : Continues image largest stackBytes s (enter_ image s target) := by
  have hfunction := getElem?_eq_getElem hlt
  unfold enter_
  by_cases hroom : s.frames.length < image.maximumCallDepth
  · obtain ⟨arena, n, hpush, halign, hle, hlength, hpacked⟩ := h.push hplan husable hroom hconcrete hfunction
    refine .inl ⟨⟨arena, ⟨target, ⟨if n = 0 then 0 else used, n⟩⟩ :: s.frames, s.started⟩, used + n, ?_, ?_⟩
    · simp only [hfunction, demand, demandSome, hpush, hroom, Except.mapError, decide_true, if_true, ok_bind,
        pure_eq_ok]
    · exact ⟨.cons h.frames hfunction halign hle, hroom, fun hfalse => absurd (h.started hfalse) hlive,
        hlength, hpacked⟩
  · refine .inr ⟨?_, not_lt.mp hroom⟩
    simp only [hfunction, demand, demandSome, hroom, decide_false, Bool.false_eq_true, if_false, ok_bind, error_bind]

theorem leave_continues (hlive : s.frames ≠ []) : Continues image largest stackBytes s (leave_ s) := by
  obtain ⟨arena, _, started⟩ := s
  obtain ⟨hframes, hdepth, hstarted, hlength, hpacked⟩ := h
  cases hframes with
  | nil => exact absurd rfl hlive
  | @cons rest used target n _ hrest hfunction halign hle =>
    have hinv : Stacking image largest stackBytes
        ⟨arena, ⟨target, ⟨if n = 0 then 0 else used, n⟩⟩ :: rest, started⟩ (used + n) :=
      ⟨.cons hrest hfunction halign hle, hdepth, hstarted, hlength, hpacked⟩
    obtain ⟨arena', hpop, hlength', hkept, hpacked'⟩ := hinv.pop husable mem_cons_self
    refine .inl ⟨⟨arena', rest, started⟩, used, ?_, hrest, le_trans (le_succ _) hdepth,
      fun hfalse => absurd (hstarted hfalse) hlive, hlength', fun haligned => ?_⟩
    · unfold leave_
      simp only [hpop, Except.mapError, ok_bind, pure_eq_ok]
    · by_cases hzero : n = 0
      · rw [hkept hzero]
        subst hzero
        exact hpacked haligned
      · have hbase : (if n = 0 then 0 else used) = used := if_neg hzero
        rw [hbase] at hpacked'
        exact hpacked' haligned rfl hzero

include hplan

theorem store_continues {depth value component bits : Nat} {function : ResolvedFunction} {c : ComponentLayout}
    (hframe : s.frames[depth]? = some frame) (hfunction : image.functions[frame.function]? = some function)
    (hc : (function.frameLayout.values[value]?).bind (·[component]?) = some c) :
    Continues image largest stackBytes s (store_ image s depth value component bits) := by
  obtain ⟨_, hfunction', halign, -, hend⟩ := h.frames.mem (mem_of_getElem? hframe)
  cases hfunction.symm.trans hfunction'
  obtain ⟨_, -, hderive⟩ := hplan.derived hfunction
  have hinside := derive_fits hderive hc
  have hlen := le_of_align (by decide) halign
  have hsize := byteSize_pos c.atom
  have hbound := h.frames.used_le
  rcases husable with haligned | rfl
  · obtain ⟨arena, hstore, hlength, hpacked⟩ := storeComponent_packed
      frame.reservation.base c bits (h.packed haligned) (by omega)
    refine .inl ⟨{ s with arena := arena }, used, ?_, h.frames, h.depth, h.started, hlength.trans h.length,
      fun _ => hpacked⟩
    unfold store_
    simp only [hframe, hfunction, hc, demandSome, hstore, Except.mapError, ok_bind, pure_eq_ok]
  · omega

/-- **One step of a run.** -/
theorem FrameOp.run_continues (hdepth : 0 < image.maximumCallDepth) (hentry : EntryConcrete artifact image) {op : FrameOp}
    (happlies : op.Applies image s) (hconcrete : op.EntersConcrete artifact) :
    Continues image largest stackBytes s (op.run image s) := by
  cases op with
  | start => exact start_continues h hplan husable hdepth hentry happlies
  | enter => exact enter_continues h hplan husable happlies.1 happlies.2 hconcrete
  | leave => exact leave_continues h husable happlies
  | store =>
    obtain ⟨_, _, c, hframe, hfunction, hc⟩ := happlies
    exact store_continues h hplan husable hframe hfunction hc

end Frames

/-! ## The entry -/

/-- A verified artifact enters a function with a body. -/
theorem entry_concrete {fuel : Nat} {digests : Digests} {profile : ExecutionProfile} {image : ExecutionImage}
    (hverified : artifact.verifyDecoded fuel digests = .ok ())
    (himage : AdmittedImage artifact profile image) : EntryConcrete artifact image := by
  obtain ⟨_, hstart, hentry, hlt⟩ := himage.entry
  obtain ⟨_, _, h⟩ := bind_eq_ok.mp hverified
  obtain ⟨_, _, h⟩ := bind_eq_ok.mp h
  obtain ⟨_, hfunctions, _⟩ := bind_eq_ok.mp h
  obtain ⟨_, _, h⟩ := bind_eq_ok.mp hfunctions
  obtain ⟨_, hpresent, hall⟩ := bind_eq_ok.mp h
  obtain ⟨function, hfunction⟩ := Option.isSome_iff_exists.mp (demand_eq_ok.mp hpresent)
  obtain ⟨m, hm, hfunction⟩ := Option.bind_eq_some_iff.mp hfunction
  refine ⟨⟨function, ?_, ?_⟩, hlt⟩
  · have hj := (List.getElem?_eq_some_iff.mp hfunction).1
    obtain ⟨-, hget⟩ := getElem?_offsets DecodedModule.functions hm hstart hj
    rw [hentry, allFunctions, ← hfunction, ← hget, Nat.sub_zero]
  · -- an abstract entry is refused
    have hmodule := checkAll_eq_ok.mp hall (m, artifact.header.entryModule) (mem_zipIdx_iff_getElem?.mpr hm)
    have hrecord := checkAll_eq_ok.mp hmodule (function, artifact.header.entryFunction)
      (mem_zipIdx_iff_getElem?.mpr hfunction)
    obtain ⟨_, _, h⟩ := bind_eq_ok.mp hrecord
    obtain ⟨_, _, h⟩ := bind_eq_ok.mp h
    cases habstract : function.isAbstract with
    | false => rfl
    | true =>
      dsimp only at h
      rw [habstract, if_pos rfl, demand_eq_ok] at h
      simp [DecodedArtifact.isEntry] at h

/-! ## Whole runs -/

section Run

variable {artifact : DecodedArtifact} {image : ExecutionImage} {largest stackBytes : Nat} {s : Activations}
  {arena : FrameStack}

/-- An arena of an unusable size is only ever handed empty frames, so nothing is asked of it. -/
theorem stacking_fresh (hnew : FrameStack.new stackBytes = .ok arena) (hsmall : stackBytes < 2 ^ 32) :
    Stacking image largest stackBytes ⟨arena, [], false⟩ 0 := by
  refine ⟨.nil, zero_le _, fun _ => rfl, FrameStack.new_length hnew, fun hunits => ?_⟩
  obtain ⟨a, ha, -, hpacked⟩ := FrameStack.new_packed hsmall hunits
  cases hnew.symm.trans ha
  exact hpacked

/-- **The frames of every run are stacked.** -/
theorem Reached.stacking (hreached : Reached artifact image arena s)
    (hnew : FrameStack.new stackBytes = .ok arena) (hplan : Planned artifact image largest stackBytes)
    (husable : Usable largest stackBytes) (hdepth : 0 < image.maximumCallDepth)
    (hentry : EntryConcrete artifact image) : ∃ used, Stacking image largest stackBytes s used := by
  induction hreached with
  | fresh => exact ⟨0, stacking_fresh hnew hplan.small⟩
  | step op _ happlies hconcrete hrun ih =>
    obtain ⟨used, hinv⟩ := ih
    rcases op.run_continues hinv hplan husable hdepth hentry happlies hconcrete with
      ⟨s', used', hok, hinv'⟩ | ⟨herror, -⟩
    · cases hrun.symm.trans hok
      exact ⟨used', hinv'⟩
    · cases hrun.symm.trans herror

theorem Stacking.neverRefuses {used : Nat} (h : Stacking image largest stackBytes s used)
    (hplan : Planned artifact image largest stackBytes) (husable : Usable largest stackBytes)
    (hdepth : 0 < image.maximumCallDepth) (hentry : EntryConcrete artifact image) : NeverRefuses artifact image s := by
  refine ⟨fun hroom target function hconcrete hfunction => ?_, fun frame hmem => ?_,
    fun op e happlies hconcrete herror => ?_⟩
  · obtain ⟨arena, n, hpush, -⟩ := h.push hplan husable hroom hconcrete hfunction
    exact ⟨_, hpush⟩
  · obtain ⟨arena, hpop, -⟩ := h.pop husable hmem
    exact ⟨arena, hpop⟩
  · rcases op.run_continues h hplan husable hdepth hentry happlies hconcrete with
      ⟨s', used', hok, -⟩ | ⟨hoverflow, hfull⟩
    · cases herror.symm.trans hok
    · cases herror.symm.trans hoverflow
      exact ⟨rfl, hfull⟩

/-- Without call depth the entry has no frame to be written to. -/
theorem start_without_depth (arena : FrameStack) (hdepth : image.maximumCallDepth = 0) :
    ∃ e, FrameOp.start_ image ⟨arena, [], false⟩ = .error e ∧ e ≠ .stackOverflow := by
  unfold FrameOp.start_
  cases image.functions[image.entry]? with
  | none => exact ⟨.notRunnable, rfl, by decide⟩
  | some entry =>
    cases hpush : arena.push entry.frameLayout with
    | error => exact ⟨.notRunnable, by simp [demand, demandSome, hpush, Except.mapError], by decide⟩
    | ok => exact ⟨.panics, by simp [demand, demandSome, hpush, hdepth, Except.mapError], by decide⟩

/-- A largest charge that is not zero is the charge of some function with a body. -/
theorem Planned.exists_largest (hplan : Planned artifact image largest stackBytes) (hsome : largest ≠ 0)
    (hdepth : 0 < image.maximumCallDepth) :
    ∃ target function, Concrete artifact target ∧ image.functions[target]? = some function ∧
      align function.frameLayout.byteLen 8 = some largest := by
  obtain ⟨-, -, hzero | ⟨function, hmem, hcharge⟩⟩ := foldlM_charge hplan.charges
  · exact absurd hzero.symm hsome
  obtain ⟨hmem, hbody⟩ := mem_filter.mp hmem
  obtain ⟨target, hlt, rfl⟩ := mem_iff_getElem.mp hmem
  obtain ⟨hlength, -⟩ := forall₂_iff_get.mp hplan.layouts
  have hfunction := getElem?_eq_getElem (show target < image.functions.length from hlength ▸ hlt)
  have hconcrete : Concrete artifact target :=
    ⟨_, getElem?_eq_getElem hlt, by simpa using hbody⟩
  refine ⟨target, _, hconcrete, hfunction, ?_⟩
  obtain ⟨function, hget, hderive⟩ := hplan.derived hfunction
  obtain ⟨n, halign, -⟩ := hplan.charge hdepth hconcrete hfunction
  obtain ⟨_, hshape, hsum⟩ := frameCharge_eq_ok hcharge
  cases (getElem?_eq_getElem hlt).symm.trans hget
  cases hderive.symm.trans hshape
  rw [halign, hsum, (align_eq_some halign).2]

/-- **The stack of a task that runs alone.**  For a verified artifact, the arena never refuses a frame, in
any run that enters functions with a body only, exactly when there is a call depth and the declared
stack is a whole number of units or is never used. -/
theorem frames_never_refused_iff {fuel : Nat} {digests : Digests} {host : Host} {abi : ManifestAbi}
    {profile : ExecutionProfile} {machine : MachineStorage}
    (hverified : artifact.verifyDecoded fuel digests = .ok ())
    (haccepted : admitWithCapabilities host abi artifact profile = .ok image)
    (hmachine : newMachine image = .ok machine) :
    (∀ s, Reached artifact image machine.frameArena s → NeverRefuses artifact image s) ↔
      0 < artifact.manifest.maximumCallDepth ∧
        (artifact.manifest.requiredStackBytes % 8 = 0 ∨ largestFrameCharge artifact = .ok 0) := by
  obtain ⟨hfits, himage⟩ := admit_eq_ok haccepted
  obtain ⟨hsmall, hnew⟩ := newMachine_arena hmachine
  obtain ⟨largest, hcharges, hroom, -⟩ := hfits.stack
  have hstack : image.storagePlan.frameArenaBytes = artifact.manifest.requiredStackBytes :=
    congrArg Reserved.frameArenaBytes himage.reserved
  have hcalls : image.maximumCallDepth = artifact.manifest.maximumCallDepth :=
    congrArg Reserved.callDepth himage.reserved
  rw [hstack] at hsmall hnew
  rw [← hcalls] at hroom ⊢
  have hplan : Planned artifact image largest artifact.manifest.requiredStackBytes :=
    ⟨resolveFunctions_layout himage.functions, hcharges, hroom, hsmall⟩
  have hentry := entry_concrete hverified himage
  rw [hcharges]
  constructor
  · intro hnever
    have hfresh := hnever _ .fresh
    have hdepth : 0 < image.maximumCallDepth := by
      by_contra hzero
      obtain ⟨e, hstart, hother⟩ := start_without_depth machine.frameArena
        (Nat.eq_zero_of_not_pos hzero)
      exact hother (hfresh.ends .start e rfl trivial hstart).1
    refine ⟨hdepth, ?_⟩
    by_contra hunusable
    rw [not_or] at hunusable
    obtain ⟨hunits, hused⟩ := hunusable
    have hsome : largest ≠ 0 := fun hzero => hused (by rw [hzero])
    -- the first function that needs bytes is refused at once
    obtain ⟨target, function, hconcrete, hfunction, halign⟩ := hplan.exists_largest hsome hdepth
    have height := align_eight_mod halign
    have hfull : largest ≤ largest * image.maximumCallDepth := Nat.le_mul_of_pos_right _ hdepth
    obtain ⟨_, hpush⟩ := hfresh.push hdepth target function hconcrete hfunction
    rw [FrameStack.push_unaligned (by omega) hsmall hunits hnew halign hsome] at hpush
    cases hpush
  · rintro ⟨hdepth, husable⟩ s hreached
    have husable : Usable largest artifact.manifest.requiredStackBytes :=
      husable.imp_right fun hzero => Except.ok.inj hzero
    obtain ⟨used, hinv⟩ := hreached.stacking hnew hplan husable hdepth hentry
    exact hinv.neverRefuses hplan husable hdepth hentry

end Run

/-! ### A program with one register -/

/-- The register takes four bytes, so a frame takes eight. -/
def counter (stackBytes : Nat) : DecodedArtifact := idleWith [⟨⟨1, 0, absentId⟩, [.i32]⟩] stackBytes

def counterProfile : ExecutionProfile := { frugalProfile with frameStorageBytes := 64 }

theorem counter_never_refused :
    ∃ image machine, admitWithCapabilities plainHost ⟨[], []⟩ (counter 16) counterProfile = .ok image ∧
      newMachine image = .ok machine ∧
      ∀ s, Reached (counter 16) image machine.frameArena s → NeverRefuses (counter 16) image s := by
  have hverified : (counter 16).verifyDecoded 10 (fun _ => .ok []) = .ok () := by decide +kernel
  obtain ⟨image, machine, haccepted, hmachine⟩ : ∃ image machine,
      admitWithCapabilities plainHost ⟨[], []⟩ (counter 16) counterProfile = .ok image ∧
        newMachine image = .ok machine := ⟨_, _, rfl, rfl⟩
  exact ⟨image, machine, haccepted, hmachine,
    (frames_never_refused_iff hverified haccepted hmachine).mpr ⟨by decide, .inl (by decide)⟩⟩

/-- **A stack of 20 bytes is refused as a whole.**  The program is verified and admitted, one frame of eight
bytes would do, and its entry cannot be entered. -/
theorem counter_refused :
    (counter 20).validateLocalTables ⟨1⟩ = .ok () ∧
      (counter 20).verifyDecoded 10 (fun _ => .ok []) = .ok () ∧
      ∃ image machine, admitWithCapabilities plainHost ⟨[], []⟩ (counter 20) counterProfile = .ok image ∧
        newMachine image = .ok machine ∧ image.maximumCallDepth = 1 ∧
        Reached (counter 20) image machine.frameArena ⟨machine.frameArena, [], false⟩ ∧
        (∃ function, image.functions[image.entry]? = some function ∧ Concrete (counter 20) image.entry ∧
          machine.frameArena.push function.frameLayout = .error (.fault .corruptLifecycle)) ∧
        FrameOp.start.run image ⟨machine.frameArena, [], false⟩ = .error .notRunnable :=
  ⟨by decide +kernel, by decide +kernel, _, _, rfl, rfl, rfl, .fresh, ⟨_, rfl, ⟨_, rfl, rfl⟩, rfl⟩, rfl⟩

end Compukter.Image
