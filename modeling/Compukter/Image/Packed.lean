/-
The arena of a stack.

Frames that come and go last in, first out lie next to each other from the start of the arena, and what
is behind them is a single unused region: the arena is `Packed`.  Taking a frame from a packed arena and
releasing its last frame are each one edit of that region, and a store into a frame does not reach it.
-/
import Compukter.Image.Limits

namespace Compukter.Image

open Bytes Fallible Nat Option

/-! ## Layouts -/

variable {value alignment n : Nat}

theorem align_eq_some (h : align value alignment = some n) :
    value + (alignment - 1) < 2 ^ 32 ∧ n = (value + (alignment - 1)) / alignment * alignment := by
  unfold align at h
  split at h
  · next hsmall =>
    cases h
    exact ⟨hsmall, rfl⟩
  · cases h

theorem align_eight_mod {value n : Nat} (h : align value 8 = some n) : n % 8 = 0 := by
  obtain ⟨-, rfl⟩ := align_eq_some h
  exact mul_mod_left _ 8

theorem le_of_align (hpos : 0 < alignment) (h : align value alignment = some n) : value ≤ n := by
  obtain ⟨-, rfl⟩ := align_eq_some h
  have hdiv := div_add_mod (value + (alignment - 1)) alignment
  have hmod := mod_lt (value + (alignment - 1)) hpos
  rw [mul_comm] at hdiv
  omega

theorem byteSize_pos (atom : PhysicalAtom) : 0 < atom.byteSize := by
  cases atom <;> decide

/-- The components end before `stop`. -/
def EndBefore (components : List ComponentLayout) (stop : Nat) : Prop :=
  ∀ c ∈ components, c.offset + c.atom.byteSize ≤ stop

variable {components : List ComponentLayout}

theorem EndBefore.mono {stop stop' : Nat}
    (h : EndBefore components stop) (hle : stop ≤ stop') : EndBefore components stop' :=
  fun c hc => le_trans (h c hc) hle

theorem placeAtoms_spec {atoms : List PhysicalAtom} {offset alignment : Nat} {offset' alignment' : Nat}
    (h : placeAtoms atoms offset alignment = some (components, offset', alignment')) :
    offset ≤ offset' ∧ alignment ≤ alignment' ∧ EndBefore components offset' := by
  induction atoms generalizing offset alignment components offset' alignment' with
  | nil =>
    cases h
    exact ⟨le_refl _, le_refl _, fun c hc => nomatch hc⟩
  | cons atom rest ih =>
    simp only [placeAtoms, bind_eq_bind, bind_eq_some_iff] at h
    obtain ⟨start, hstart, next, hnext, ⟨_, _, _⟩, hrest, hresult⟩ := h
    dsimp only at hrest hresult
    cases hresult
    obtain ⟨hoffset, halignment, hlater⟩ := ih hrest
    have hle := le_of_align (byteSize_pos atom) hstart
    have hsum : next = start + atom.byteSize := by
      unfold checkedU32 at hnext
      split at hnext
      · exact (some.inj hnext).symm
      · cases hnext
    refine ⟨by omega, by omega, fun c hc => ?_⟩
    rcases List.mem_cons.mp hc with rfl | hc
    · show start + atom.byteSize ≤ _
      omega
    · exact hlater c hc

theorem placeValues_spec {values : List (List PhysicalAtom)} {offset alignment : Nat}
    {components : List (List ComponentLayout)} {offset' alignment' : Nat}
    (h : placeValues values offset alignment = some (components, offset', alignment')) :
    offset ≤ offset' ∧ alignment ≤ alignment' ∧ ∀ value ∈ components, EndBefore value offset' := by
  induction values generalizing offset alignment components offset' alignment' with
  | nil =>
    cases h
    exact ⟨le_refl _, le_refl _, fun c hc => nomatch hc⟩
  | cons value _ ih =>
    simp only [placeValues, bind_eq_bind, bind_eq_some_iff] at h
    obtain ⟨⟨_, _, _⟩, hfirst, ⟨_, _, _⟩, hrest, hresult⟩ := h
    dsimp only at hrest hresult
    cases hresult
    obtain ⟨hoffset, halignment, hends⟩ := placeAtoms_spec hfirst
    obtain ⟨hoffset', halignment', hlater⟩ := ih hrest
    refine ⟨by omega, by omega, fun value hvalue => ?_⟩
    rcases List.mem_cons.mp hvalue with rfl | hvalue
    · exact hends.mono hoffset'
    · exact hlater value hvalue

/-- **Components lie inside their frame.** -/
theorem derive_fits {values : List FunctionValue} {shape : FrameShape} (h : derive values = some shape)
    {value component : Nat} {c : ComponentLayout}
    (hc : (shape.values[value]?).bind (·[component]?) = some c) : c.offset + c.atom.byteSize ≤ shape.byteLen := by
  simp only [derive, deriveAtoms, bind_eq_bind, bind_eq_some_iff] at h
  obtain ⟨⟨_, _, _⟩, hplace, _, hlength, hresult⟩ := h
  cases hresult
  obtain ⟨-, hpos, hends⟩ := placeValues_spec hplace
  obtain ⟨list, hlist, hmember⟩ := bind_eq_some_iff.mp hc
  have hend := hends list (List.mem_of_getElem? hlist) c (List.mem_of_getElem? hmember)
  exact le_trans hend (le_of_align hpos hlength)

/-! ## Regions -/

namespace FrameStack

variable {a : FrameStack} {used base n : Nat}

/-- A region is read from its first eight bytes. -/
theorem readFree_congr {a a' : FrameStack} (hlength : a'.length = a.length)
    (hbytes : ∀ i, base ≤ i → i < base + 8 → a'.bytes i = a.bytes i) : a'.readFree base = a.readFree base := by
  have hnext : readLE a'.bytes base 4 = readLE a.bytes base 4 :=
    readLE_congr fun i hi hi' => hbytes i hi (by omega)
  have hlen : readLE a'.bytes (base + 4) 4 = readLE a.bytes (base + 4) 4 :=
    readLE_congr fun i hi hi' => hbytes i (by omega) (by omega)
  unfold readFree
  rw [hlength, hnext, hlen]

theorem writeFree_ok {next : Option Nat} {length : Nat} (hbase : base + 8 ≤ a.length) :
    a.writeFree base next length = .ok { a with
      bytes := writeLE (writeLE a.bytes base 4 (next.getD absentRegion)) (base + 4) 4 length } := by
  unfold writeFree
  rw [if_pos hbase]

/-- The last region of an arena, as it was written. -/
theorem readFree_last {length : Nat} (hbase : base + 8 ≤ a.length) (hlength : length < 2 ^ 32) :
    readFree { a with bytes := writeLE (writeLE a.bytes base 4 absentRegion) (base + 4) 4 length } base =
      if length < 8 ∨ length % 8 ≠ 0 then .error (.fault .corruptLifecycle) else .ok (none, length) := by
  have hnext : readLE (writeLE (writeLE a.bytes base 4 absentRegion) (base + 4) 4 length) base 4 =
      absentRegion := by
    rw [readLE_writeLE_other (by omega)]
    exact readLE_writeLE_same (by decide)
  have hlen : readLE (writeLE (writeLE a.bytes base 4 absentRegion) (base + 4) 4 length) (base + 4) 4 =
      length := readLE_writeLE_same hlength
  unfold readFree
  rw [if_pos hbase, hnext, hlen]
  simp

/-- **A packed arena**: the first `used` bytes are taken and the rest is one region. -/
structure Packed (a : FrameStack) (used : Nat) : Prop where
  bound : used ≤ a.length
  small : a.length < 2 ^ 32
  usedUnits : used % 8 = 0
  units : a.length % 8 = 0
  head : a.freeHead = if used < a.length then some used else none
  region : used < a.length → a.readFree used = .ok (none, a.length - used)

variable {capacity : Nat}

theorem new_packed (hsmall : capacity < 2 ^ 32) (hunits : capacity % 8 = 0) :
    ∃ a, new capacity = .ok a ∧ a.length = capacity ∧ Packed a 0 := by
  by_cases hroom : 8 ≤ capacity
  · refine ⟨_, (if_pos hroom).trans (writeFree_ok hroom), rfl, zero_le _, hsmall, rfl, hunits, ?_, fun _ => ?_⟩
    · show (if 8 ≤ capacity then some 0 else none) = if 0 < capacity then some 0 else none
      rw [if_pos hroom, if_pos (by omega)]
    · refine (readFree_last (by exact hroom) hsmall).trans ?_
      rw [if_neg (by omega)]
      rfl
  · refine ⟨_, if_neg hroom, rfl, zero_le _, hsmall, rfl, hunits, ?_, fun hpos => ?_⟩
    · show (if 8 ≤ capacity then some 0 else none) = if 0 < capacity then some 0 else none
      rw [if_neg hroom, if_neg (by omega)]
    · exact absurd hpos (by show ¬ 0 < capacity; omega)

/-- An arena of any other size is not usable: its one region reads as corrupt. -/
theorem new_unaligned (hroom : 8 ≤ capacity) (hsmall : capacity < 2 ^ 32)
    (hunits : capacity % 8 ≠ 0) {a : FrameStack} (h : new capacity = .ok a) :
    a.freeHead = some 0 ∧ a.readFree 0 = .error (.fault .corruptLifecycle) := by
  rw [new, if_pos hroom, writeFree_ok (by exact hroom)] at h
  cases h
  refine ⟨if_pos hroom, (readFree_last (by exact hroom) hsmall).trans ?_⟩
  rw [if_pos (.inr hunits)]

/-! ## Taking a frame -/

/-- The bytes in front of the region are free to change. -/
theorem Packed.of_bytes {a' : FrameStack} (h : Packed a used) (hlength : a'.length = a.length)
    (hhead : a'.freeHead = a.freeHead) (hbytes : ∀ i, used ≤ i → a'.bytes i = a.bytes i) : Packed a' used := by
  refine ⟨hlength ▸ h.bound, hlength ▸ h.small, h.usedUnits, hlength ▸ h.units, ?_, fun hlt => ?_⟩
  · rw [hhead, hlength]
    exact h.head
  · rw [readFree_congr hlength fun i hi _ => hbytes i hi, hlength]
    exact h.region (hlength ▸ hlt)

/-! ## Stores -/

theorem storeComponent_packed (base : Nat) (c : ComponentLayout) (value : Nat) (h : Packed a used)
    (hend : base + c.offset + c.atom.byteSize ≤ used) :
    ∃ a', a.storeComponent base c value = .ok a' ∧ a'.length = a.length ∧ Packed a' used := by
  have hbound := h.bound
  have hsmall := h.small
  have hrange : a.componentRange base c = .ok (base + c.offset) := by
    unfold FrameArena.componentRange
    rw [if_pos ⟨by omega, by omega⟩]
  refine ⟨{ a with bytes := writeLE a.bytes (base + c.offset) c.atom.byteSize value }, ?_, rfl,
    h.of_bytes rfl rfl fun i hi => ?_⟩
  · unfold storeComponent
    rw [hrange, ok_bind]
    rfl
  · exact writeLE_outside (.inr (by omega))

/-! ## An arena that cannot be used -/

theorem push_unaligned {layout : FrameShape} (hroom : 8 ≤ capacity)
    (hsmall : capacity < 2 ^ 32) (hunits : capacity % 8 ≠ 0) (h : new capacity = .ok a)
    (hn : align layout.byteLen 8 = some n) (hsome : n ≠ 0) : a.push layout = .error (.fault .corruptLifecycle) := by
  obtain ⟨hhead, hread⟩ := new_unaligned hroom hsmall hunits h
  have htake : a.takeRegion n a.regionFuel none a.freeHead = .error (.fault .corruptLifecycle) := by
    rw [hhead, regionFuel, takeRegion, hread, error_bind]
  unfold push
  rw [hn]
  simp only [demandSome, ok_bind, if_neg hsome, htake, error_bind]

end FrameStack

end Compukter.Image
