/-
Which registers an instruction reads and writes.

`Instruction.reads` and `Instruction.writes` are the operands, independent of the verifier.  The check of an
instruction reads exactly the operands, in order, and then writes the result (`verifyInstruction_follows`); a
check that fails has made the first of these accesses and no others.
-/
import Compukter.Verify.Instruction

namespace Compukter

open Script

/-! ## Operands -/

namespace Instruction

/-- The registers read; a return from a unit function reads none. -/
def reads (unitResult : Bool) : Instruction → List Nat
  | inlineConstruct _ components => components
  | inlineComponent _ src _ | move _ src | mathUnary _ _ _ src | convert _ _ src | neg _ _ src => [src]
  | matrixMath _ _ lhs rhs => lhs :: rhs.toList
  | mathBinary _ _ _ lhs rhs => [lhs, rhs]
  | add _ _ lhs rhs | sub _ _ lhs rhs | mul _ _ lhs rhs | div _ _ lhs rhs | rem _ _ lhs rhs
  | bitAnd _ _ lhs rhs | bitOr _ _ lhs rhs | bitXor _ _ lhs rhs | shiftLeft _ _ lhs rhs
  | shiftRight _ _ lhs rhs | shiftUnsigned _ _ lhs rhs | equal _ _ lhs rhs | notEqual _ _ lhs rhs
  | less _ _ lhs rhs | lessEqual _ _ lhs rhs | greater _ _ lhs rhs | greaterEqual _ _ lhs rhs =>
    [lhs, rhs]
  | refEqual _ lhs rhs | refNotEqual _ lhs rhs | stringEquals _ lhs rhs | stringCompare _ lhs rhs
  | stringConcat _ lhs rhs => [lhs, rhs]
  | newArray _ _ length => [length]
  | arrayLength _ array => [array]
  | arrayLoad _ array index => [array, index]
  | arrayStore array index value => [array, index, value]
  | arrayCopy source destination sourceStart destinationStart length =>
    [source, destination, sourceStart, destinationStart, length]
  | fieldGet _ receiver _ => [receiver]
  | fieldSet receiver _ value => [receiver, value]
  | staticSet _ value | isType _ value _ | checkedCast _ value _ => [value]
  | callDirect _ _ args | callVirtual _ _ args | callInterface _ _ args | callSuspend _ _ args _
  | coroutineSpawn _ _ args | capabilityCallSync _ _ _ args | capabilityCallAsync _ _ _ args _ =>
    args
  | stringLength _ string | stringHash _ string => [string]
  | stringGet _ string index => [string, index]
  | valueHash _ _ source | stringValueOf _ _ source => [source]
  | stringSubstring _ string start stop => [string, start, stop]
  | stringFromCharArray _ array start stop => [array, start, stop]
  | branch condition _ _ => [condition]
  | switchI32 key _ _ => [key]
  | return_ value => if unitResult then [] else [value]
  | throw exception => [exception]
  | sleep duration _ => [duration]
  | coroutineJoin _ coroutine _ => [coroutine]
  | channelCreate _ capacity => [capacity]
  | channelSend channel value _ => [channel, value]
  | channelReceive _ channel _ => [channel]
  | nop | const .. | null _ | newObject .. | staticGet .. | jump _ | yield _ | unreachable => []

/-- The register written, if any. -/
def writes : Instruction → List Nat
  | inlineConstruct dst _ | inlineComponent dst _ _ | move dst _ | const dst _ | null dst
  | matrixMath _ dst _ _ | mathUnary _ _ dst _ | mathBinary _ _ dst _ _ | convert _ dst _
  | neg _ dst _ => [dst]
  | add _ dst _ _ | sub _ dst _ _ | mul _ dst _ _ | div _ dst _ _ | rem _ dst _ _
  | bitAnd _ dst _ _ | bitOr _ dst _ _ | bitXor _ dst _ _ | shiftLeft _ dst _ _
  | shiftRight _ dst _ _ | shiftUnsigned _ dst _ _ | equal _ dst _ _ | notEqual _ dst _ _
  | less _ dst _ _ | lessEqual _ dst _ _ | greater _ dst _ _ | greaterEqual _ dst _ _ => [dst]
  | refEqual dst _ _ | refNotEqual dst _ _ | newObject dst _ | newArray dst _ _ | arrayLength dst _
  | arrayLoad dst _ _ | fieldGet dst _ _ | staticGet dst _ | isType dst _ _ | checkedCast dst _ _
  | coroutineSpawn dst _ _ => [dst]
  | callDirect dst _ _ | callVirtual dst _ _ | callInterface dst _ _ | callSuspend dst _ _ _
  | capabilityCallSync dst _ _ _ | capabilityCallAsync dst _ _ _ _ =>
    if dst = absentRegister then [] else [dst]
  | stringLength dst _ | stringGet dst _ _ | stringEquals dst _ _ | stringCompare dst _ _
  | stringHash dst _ | stringConcat dst _ _ | valueHash _ dst _ | stringValueOf _ dst _
  | stringSubstring dst _ _ _ | stringFromCharArray dst _ _ _ | channelCreate dst _
  | channelReceive dst _ _ => [dst]
  | nop | arrayStore .. | arrayCopy .. | fieldSet .. | staticSet .. | jump _ | branch ..
  | switchI32 .. | return_ _ | throw _ | yield _ | sleep .. | coroutineJoin .. | channelSend ..
  | unreachable => []

/-- The accesses of an instruction. -/
def accesses (unitResult : Bool) (i : Instruction) : List Access :=
  (i.reads unitResult).map .read ++ i.writes.map .write

end Instruction

/-! ## Checks that touch no register -/

namespace Site

variable {c : Site} {α β : Type}

/-- An access to a register that the function has. -/
def InRange (c : Site) : Access → Prop
  | .read register | .write register => register < c.function.values.length

theorem follows_reject (r : Rejection) (l : List Access) : Follows c.InRange (reject r : Check α) l :=
  .fail r l

/-- A check that touches no register. -/
class Quiet (c : Site) (p : Check α) : Prop where
  follows : Follows c.InRange p []

variable {p : Check α} {f : α → Check β} {l : List Access}

/-- A quiet check first. -/
theorem quiet [hp : Quiet c p]
    (hf : ∀ a, Follows c.InRange (f a) l) : Follows c.InRange (p >>= f) l := hp.follows.bind fun a _ => hf a

theorem quiet_ok [hp : Quiet c p]
    (hf : ∀ a, p.result = .ok a → Follows c.InRange (f a) l) : Follows c.InRange (p >>= f) l := hp.follows.bind hf

instance (condition : Bool) (r : Rejection) : Quiet c (ensure condition r) where
  follows := by
    unfold ensure
    split
    · exact .pure ()
    · exact .fail r []

instance (value : Option α) (r : Rejection) : Quiet c (require value r) where
  follows := by
    unfold require
    split
    · exact .pure _
    · exact .fail r []

instance (result : Except Rejection α) : Quiet c (Script.check result) := ⟨.check _⟩

instance (register : Nat) : Quiet c (c.registerType register) where
  follows := by
    unfold registerType
    split
    · exact .pure _
    · exact .fail _ _

instance (register kind : Nat) : Quiet c (c.requireKind register kind) :=
  ⟨quiet fun _ => quiet fun _ => .pure _⟩

instance (m : Nat) (v : ValueType) (m' : Nat) (v' : ValueType) (detail : String) :
    Quiet c (c.ensureMatch m v m' v' detail) :=
  ⟨quiet fun _ => Quiet.follows⟩

instance (m : Nat) (v : ValueType) (m' : Nat) (v' : ValueType) (detail : String) :
    Quiet c (c.ensureAssignable m v m' v' detail) :=
  ⟨quiet fun _ => Quiet.follows⟩

instance (value : ValueType) : Quiet c (c.inlineLayout value) where
  follows := by
    refine quiet fun _ => quiet fun identity => ?_
    split
    · exact .pure _
    · exact .fail _ _

instance (dst : Nat) (identity : TypeIdentity) : Quiet c (c.requireReferenceDestination dst identity) :=
  ⟨quiet fun _ => Quiet.follows⟩

instance : Quiet c c.resolveStringType where
  follows := by
    unfold resolveStringType
    split
    · exact .fail _ _
    · split
      · exact quiet fun _ => .pure _
      · exact .fail _ _
    · exact .fail _ _

instance (register : Nat) : Quiet c (c.requireString register) :=
  ⟨quiet fun _ => quiet fun _ => Quiet.follows⟩

instance (typeRef : Nat) : Quiet c (c.resolveTypeOperand typeRef) := inferInstanceAs (Quiet c (require _ _))

instance (reference kind : Nat) : Quiet c (c.resolveSymbol reference kind) where
  follows := by
    refine quiet fun _ => ?_
    split
    · exact .pure _
    · exact quiet fun _ => quiet fun _ => quiet fun _ => quiet fun _ => quiet fun _ => quiet fun _ => .pure _

instance (reference : Nat) : Quiet c (c.resolveFunction reference) :=
  ⟨quiet fun _ => quiet fun _ => .pure _⟩

instance (reference : Nat) : Quiet c (c.resolveField reference) :=
  ⟨quiet fun _ => quiet fun _ => .pure _⟩

instance (capability operation : Nat) : Quiet c (c.verifyCapability capability operation) :=
  ⟨quiet fun _ => Quiet.follows⟩

instance (operation : MatrixOperation) (register count : Nat) :
    Quiet c (c.verifyMatrixOperand operation register count) :=
  ⟨quiet fun _ => quiet fun _ => Quiet.follows⟩

instance (targetModule : Nat) (target : Function) (kind : CallKind) :
    Quiet c (c.verifyCallKind targetModule target kind) where
  follows := by
    cases kind with
    | direct => exact quiet fun _ => Quiet.follows
    | virtual => exact Quiet.follows (p := ensure _ _)
    | interface =>
      refine quiet fun _ => ?_
      split
      · exact .pure _
      · exact .fail _ _
    | suspend => exact Quiet.follows (p := ensure _ _)

/-! ## Checks that read and write -/

variable {register : Nat}

theorem lt_of_registerType {v : ValueType}
    (h : (c.registerType register).result = .ok v) : register < c.function.values.length := by
  unfold registerType at h
  split at h
  case h_1 hsome => exact (List.getElem?_eq_some_iff.mp hsome).1
  case h_2 => cases h

theorem follows_read (register : Nat) : Follows c.InRange (c.read register) [.read register] :=
  quiet_ok fun _ h => .access (lt_of_registerType h)

theorem follows_write (register : Nat) : Follows c.InRange (c.write register) [.write register] :=
  quiet_ok fun _ h => .access (lt_of_registerType h)

theorem quiet_write [Quiet c p] : Follows c.InRange (p >>= fun _ => c.write register) [.write register] :=
  quiet fun _ => follows_write register

theorem read_bind {f : Unit → Check β} (hf : Follows c.InRange (f ()) l) :
    Follows c.InRange (c.read register >>= f) (.read register :: l) :=
  (follows_read register).bind fun _ _ => hf

theorem follows_arrayElement (array : Nat) : Follows c.InRange (c.arrayElement array) [.read array] := by
  refine read_bind (quiet fun _ => ?_)
  refine quiet fun _ => quiet fun _ => ?_
  split
  · exact .pure _
  · exact .fail _ _

open Quiet

theorem follows_verifyReceiver (receiver ownerModule : Nat) (owner : TypeId) :
    Follows c.InRange (c.verifyReceiver receiver ownerModule owner) [.read receiver] :=
  read_bind (quiet fun _ => quiet fun _ => follows)

theorem ensure_ok {condition : Bool} {r : Rejection} {u : Unit}
    (h : (ensure condition r).result = .ok u) : condition = true := by
  unfold ensure at h
  split at h
  · assumption
  · cases h

/-- Each register of a list is read, with quiet checks after the read. -/
theorem follows_each_read {γ : Type} {f : Nat × γ → Check Unit} {registers : List Nat} {l : List γ}
    (hlen : registers.length = l.length) (h : ∀ x, Follows c.InRange (f x) [.read x.1]) :
    Follows c.InRange (Script.each f (registers.zip l)) (registers.map .read) := by
  have hmap : registers.map Access.read = (registers.zip l).flatMap fun x => [.read x.1] := by
    rw [← List.map_eq_flatMap]
    conv_lhs => rw [← List.map_fst_zip (Nat.le_of_eq hlen), List.map_map]
    rfl
  rw [hmap]
  exact .each fun x _ => h x

theorem follows_verifyCallArguments (targetModule : Nat) (target : Function) (args : List Nat) :
    Follows c.InRange (c.verifyCallArguments targetModule target args) (args.map .read) := by
  refine quiet fun identity => ?_
  split
  case h_1 t _ =>
    refine quiet_ok fun u hu => ?_
    have hlen := beq_iff_eq.mp (ensure_ok hu)
    have hreads := follows_each_read (f := fun x : Nat × ValueType => do
      c.read x.1
      let argumentType ← c.registerType x.1
      c.ensureAssignable c.moduleId argumentType identity.1 x.2
        "call argument type disagrees with signature") hlen (fun x =>
      read_bind (quiet fun _ => follows))
    have h := hreads.bind fun _ _ => Follows.pure (identity.1, t.result)
    rw [List.append_nil] at h
    exact h
  case h_2 => exact .fail _ _

theorem follows_verifyCall (dst reference : Nat) (args : List Nat) (kind : CallKind) :
    Follows c.InRange (c.verifyCall dst reference args kind)
      (args.map .read ++ (if dst = absentRegister then [] else [dst]).map .write) := by
  refine quiet fun ⟨_, _⟩ => ?_
  refine quiet fun _ => ?_
  refine (follows_verifyCallArguments _ _ _).bind fun ⟨resultModule, result⟩ _ => ?_
  dsimp only
  split
  · unfold ensure
    split
    case isTrue h =>
      rw [if_pos (beq_iff_eq.mp h)]
      exact .pure _
    case isFalse => exact .fail _ _
  · refine quiet_ok fun u hu => ?_
    rw [if_neg (bne_iff_ne.mp (ensure_ok hu))]
    exact quiet fun _ => quiet_write

theorem follows_verifyCapabilityCall (dst capability operation : Nat) (args : List Nat) :
    Follows c.InRange (c.verifyCapabilityCall dst capability operation args)
      (args.map .read ++ (if dst = absentRegister then [] else [dst]).map .write) := by
  refine quiet fun _ => ?_
  have hargs : Follows c.InRange (Script.each c.read args) (args.map .read) := by
    rw [List.map_eq_flatMap]
    exact .each fun r _ => follows_read r
  refine hargs.bind fun _ _ => ?_
  split
  · exact .pure _
  · exact quiet fun _ => quiet_write

theorem follows_verifyArithmetic (form dst lhs rhs : Nat) (shift : Bool) :
    Follows c.InRange (c.verifyArithmetic form dst lhs rhs shift) [.read lhs, .read rhs, .write dst] :=
  read_bind (read_bind (quiet fun _ => quiet fun _ => quiet_write))

theorem follows_verifyComparison (form dst lhs rhs : Nat) :
    Follows c.InRange (c.verifyComparison form dst lhs rhs) [.read lhs, .read rhs, .write dst] :=
  read_bind (read_bind (quiet fun _ => quiet fun _ => quiet_write))

theorem follows_verifyRefComparison (dst lhs rhs : Nat) :
    Follows c.InRange (c.verifyRefComparison dst lhs rhs) [.read lhs, .read rhs, .write dst] :=
  read_bind (read_bind (quiet fun _ => quiet fun _ => quiet fun _ => quiet_write))

theorem follows_verifyStringPair (dst lhs rhs kind : Nat) :
    Follows c.InRange (c.verifyStringPair dst lhs rhs kind) [.read lhs, .read rhs, .write dst] :=
  read_bind (read_bind (quiet fun _ => quiet fun _ => quiet_write))

/-! ## All instructions -/

theorem follows_verifyOperation (instruction : Instruction) :
    Follows c.InRange (c.verifyOperation instruction) (instruction.accesses (c.result.kind = 0)) := by
  cases instruction with
  | inlineConstruct =>
    refine quiet fun _ => quiet fun ⟨_, _⟩ => ?_
    refine quiet_ok fun u hu => ?_
    refine (follows_each_read (beq_iff_eq.mp (ensure_ok hu)) fun ⟨_, _⟩ => ?_).bind
      fun _ _ => follows_write _
    exact read_bind (quiet fun _ => follows)
  | inlineComponent =>
    exact read_bind (quiet fun _ => quiet fun _ => quiet fun _ => quiet fun _ => quiet_write)
  | nop | jump | unreachable | yield => exact .pure _
  | move | checkedCast | convert | isType =>
    exact read_bind (quiet fun _ => quiet fun _ => quiet_write)
  | const =>
    refine quiet fun value => quiet fun _ => quiet fun _ => ?_
    cases value with
    | string => exact quiet_write
    | _ => exact follows_write _
  | null =>
    exact quiet fun _ => quiet_write
  | matrixMath _ _ _ rhs =>
    refine quiet fun _ => read_bind (quiet fun _ => ?_)
    cases rhs with
    | some =>
      exact read_bind (quiet fun _ => quiet_write)
    | none =>
      exact quiet_write
  | newObject =>
    refine quiet fun identity => ?_
    split
    · exact quiet fun _ => quiet_write
    · exact (follows_reject _ []).bind fun _ h => by cases h
  | newArray =>
    refine read_bind (quiet fun _ => quiet fun identity => ?_)
    split
    · exact quiet_write
    · exact (follows_reject _ []).bind fun _ h => by cases h
  | arrayLength =>
    exact (follows_arrayElement _).bind fun _ _ => quiet_write
  | arrayLoad =>
    exact (follows_arrayElement _).bind fun _ _ => read_bind (quiet fun _ => quiet fun _ =>
      quiet_write)
  | arrayStore =>
    exact (follows_arrayElement _).bind fun _ _ => read_bind (read_bind (quiet fun _ => quiet fun _ =>
      follows))
  | arrayCopy _ _ sourceStart destinationStart length =>
    refine (follows_arrayElement _).bind fun _ _ => (follows_arrayElement _).bind fun _ _ => ?_
    refine Follows.bind (l := [.read sourceStart, .read destinationStart, .read length])
      (.each (g := fun r => [.read r]) fun r _ => ?_) fun _ _ => ?_
    · exact read_bind (quiet fun _ => .pure _)
    · exact quiet fun _ => follows
  | fieldGet =>
    exact quiet fun _ => quiet fun _ =>
      (follows_verifyReceiver _ _ _).bind fun _ _ => quiet fun _ => quiet_write
  | fieldSet =>
    exact quiet fun _ => quiet fun _ =>
      (follows_verifyReceiver _ _ _).bind fun _ _ => read_bind (quiet fun _ => follows)
  | staticGet =>
    exact quiet fun _ => quiet fun _ => quiet fun _ => quiet_write
  | staticSet =>
    exact quiet fun _ => quiet fun _ => read_bind (quiet fun _ => follows)
  | callDirect | callVirtual | callInterface | callSuspend => exact follows_verifyCall _ _ _ _
  | coroutineSpawn =>
    exact quiet fun _ =>
      (follows_verifyCallArguments _ _ _).bind fun _ _ =>
      quiet_write
  | capabilityCallSync => exact follows_verifyCapabilityCall _ _ _ _
  | capabilityCallAsync =>
    exact follows_verifyCapabilityCall _ _ _ _
  | return_ value =>
    show Follows c.InRange (if c.result.kind = 0 then _ else _)
      (((if decide (c.result.kind = 0) then [] else [value]).map Access.read) ++ [])
    by_cases hunit : c.result.kind = 0
    · rw [if_pos hunit, if_pos (decide_eq_true hunit)]
      exact follows
    · rw [if_neg hunit, if_neg (by simpa using hunit)]
      exact read_bind (quiet fun _ => follows)
  | stringFromCharArray =>
    exact (follows_arrayElement _).bind fun _ _ => quiet fun _ => read_bind (read_bind (quiet fun _ =>
      quiet fun _ => quiet_write))
  | add | sub | mul | div
  | rem | bitAnd | bitOr
  | bitXor => exact follows_verifyArithmetic _ _ _ _ false
  | shiftLeft | shiftRight | shiftUnsigned =>
    exact follows_verifyArithmetic _ _ _ _ true
  | equal | notEqual | less
  | lessEqual | greater | greaterEqual =>
    exact follows_verifyComparison _ _ _ _
  | refEqual | refNotEqual => exact follows_verifyRefComparison _ _ _
  | stringEquals => exact follows_verifyStringPair _ _ _ 5
  | stringCompare => exact follows_verifyStringPair _ _ _ 1
  | stringConcat | stringGet =>
    exact read_bind (read_bind (quiet fun _ => quiet fun _ => quiet_write))
  | mathUnary =>
    exact quiet fun _ => read_bind (quiet fun _ => quiet_write)
  | mathBinary =>
    exact quiet fun _ => read_bind (read_bind (quiet fun _ => quiet fun _ => quiet_write))
  | neg | stringLength | stringHash | channelCreate | channelReceive =>
    exact read_bind (quiet fun _ => quiet_write)
  | valueHash =>
    exact quiet fun _ => quiet fun _ => read_bind (quiet fun _ => quiet_write)
  | stringValueOf =>
    exact quiet fun _ => quiet fun _ => quiet fun _ => read_bind (quiet fun _ => quiet_write)
  | stringSubstring =>
    exact read_bind (read_bind (read_bind (quiet fun _ => quiet fun _ => quiet fun _ =>
      quiet_write)))
  | branch | switchI32 | sleep =>
    exact read_bind (quiet fun _ => .pure _)
  | throw | coroutineJoin =>
    exact read_bind (quiet fun _ => follows)
  | channelSend =>
    exact read_bind (read_bind (quiet fun _ => quiet fun _ => .pure _))

/-- The check of an instruction reads its operands and writes its result. -/
theorem verifyInstruction_follows (instruction : Instruction) :
    Follows c.InRange (c.verifyInstruction instruction) (instruction.accesses (c.result.kind = 0)) :=
  quiet fun _ => quiet fun _ =>
    follows_verifyOperation instruction

end Site

end Compukter
