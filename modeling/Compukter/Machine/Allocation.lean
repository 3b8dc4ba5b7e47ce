/-
Allocation of objects and arrays.

An allocation reserves a block, clears it over as many slices as its size needs and then commits it; only
the commit makes a reference.  When no block fits, a collection runs and the reservation is tried again.  An
allocation that is given up aborts its reservation.

A unit of the charge clears sixteen bytes.  `Zeroing` is what holds of the reserved block between slices.
-/
import Compukter.Gc.Retry
import Compukter.Image.Packed

namespace Compukter

open Bytes Fallible Tiling Heap

/-! ## Layouts -/

structure ArrayLayout where
  (elementBytes length payloadBytes blockBytes : Nat)
  deriving DecidableEq

def arrayLayout (element : ValueWidth) (length : Int) (format : HeaderFormat) : Image.Admits ArrayLayout := do
  demand (0 ≤ length) .storagePlanOverflow
  let elementsBytes ← Image.admitU32 (element.bytes * length.toNat)
  let payloadBytes ← Image.admitU32 (8 + elementsBytes)
  return ⟨element.bytes, length.toNat, payloadBytes, ← Image.blockBytes payloadBytes format⟩

/-- A block has room for its header and its payload. -/
theorem blockBytes_fits {payload bytes : Nat} {format : HeaderFormat} (h : Image.blockBytes payload format = .ok bytes) :
    ValidSize bytes ∧ format.bytes + payload ≤ bytes := by
  obtain ⟨unaligned, hsum, h⟩ := bind_eq_ok.mp h
  obtain ⟨_, halign, h⟩ := bind_eq_ok.mp h
  cases h
  obtain ⟨hsmall, haligned⟩ := Image.align_eq_some (demandSome_eq_ok.mp halign)
  have hunaligned : format.bytes + payload = unaligned := by
    have := demandSome_eq_ok.mp hsum
    unfold Image.checkedU32 at this
    split at this
    · exact Option.some.inj this
    · cases this
  unfold blockAlignment at hsmall haligned
  unfold minimumBlockBytes
  exact ⟨⟨by omega, by omega, by omega⟩, by omega⟩

/-! ## The pending allocation -/

structure PendingState where
  request : AllocationRequest
  reservation : ReservedAllocation
  (destination logicalBytes initializedBytes : Nat)
  (fixedCostPaid collectionAttempted : Bool)
  deriving DecidableEq

inductive PendingAllocation where
  | object (state : PendingState)
  | exception (state : PendingState)
  | array (state : PendingState) (length : Nat)
  deriving DecidableEq

/-- `checked_mul` and `checked_add` of the charge. -/
def accountU32 (n : Nat) : Except VmFault Nat := if n < 2 ^ 32 then .ok n else .error .accountingOverflow

namespace PendingAllocation

def state : PendingAllocation → PendingState
  | object state | exception state | array state _ => state

def withState : PendingAllocation → PendingState → PendingAllocation
  | object _, state => object state
  | exception _, state => exception state
  | array _ length, state => array state length

variable (p : PendingAllocation)

def unitsForBudget (budget : Nat) : Nat :=
  let remainingBytes := p.state.logicalBytes - p.state.initializedBytes
  min budget (min (remainingBytes + 15) (2 ^ 32 - 1) / 16)

/-- The next `units` of the payload are cleared; an empty payload is cleared at once, up to the end of the
block. -/
def clear (heap : Heap) (units : Nat) : Except VmFault (PendingAllocation × Heap) := do
  let state := p.state
  demand (heap.payloadOffset ≤ state.request.blockBytes) .invalidStoragePlan
  let physicalPayload := state.request.blockBytes - heap.payloadOffset
  if units ≠ 0 then
    let bytes ← accountU32 (units * 16)
    let reached ← accountU32 (state.initializedBytes + bytes)
    let stop := min reached physicalPayload
    let heap ← heap.zeroReservedPayload state.reservation state.initializedBytes (stop - state.initializedBytes)
    return (p.withState { state with initializedBytes := min reached state.logicalBytes }, heap)
  else if state.logicalBytes = 0 then
    return (p, ← heap.zeroReservedPayload state.reservation 0 physicalPayload)
  else return (p, heap)

/-- An array keeps its length at the front of its payload. -/
def writeLength (heap : Heap) : Except VmFault Heap :=
  match p with
  | array state length => heap.writeReservedU32 state.reservation 0 length
  | object _ | exception _ => .ok heap

def publish (heap : Heap) : Except VmFault (Heap × Ref32) := do
  let heap ← p.writeLength heap
  heap.commit p.state.reservation

/-- The units used, and the reference once the block is cleared. -/
def advance (heap : Heap) (budget : Nat) :
    Except VmFault (PendingAllocation × Heap × Nat × Option Ref32) := do
  let units := p.unitsForBudget budget
  demand p.state.fixedCostPaid .corruptLifecycle
  let (p, heap) ← p.clear heap units
  if p.state.initializedBytes < p.state.logicalBytes then return (p, heap, units, none)
  let (heap, reference) ← p.publish heap
  return (p, heap, units, some reference)

def abort (p : PendingAllocation) (heap : Heap) : Except VmFault Heap := heap.abort p.state.reservation

end PendingAllocation

inductive AllocationShape where
  | object | exception
  | array (length : Nat)
  deriving DecidableEq

/-- An allocation before it has a block. -/
structure AllocationRetry where
  request : AllocationRequest
  (destination logicalBytes : Nat)
  shape : AllocationShape
  deriving DecidableEq

namespace AllocationRetry

variable (retry : AllocationRetry)

def pending (reservation : ReservedAllocation) (initialized : Nat) (attempted : Bool) : PendingAllocation :=
  let state : PendingState :=
    ⟨retry.request, reservation, retry.destination, retry.logicalBytes, initialized, true, attempted⟩
  match retry.shape with
  | .object => .object state
  | .exception => .exception state
  | .array length => .array state length

def reserve (retry : AllocationRetry) (heap : Heap) (attempted : Bool) :
    Except VmFault (Heap × Option PendingAllocation) := do
  let (heap, reservation) ← heap.reserve retry.request
  return (heap, reservation.map (retry.pending · 0 attempted))

/-- The sizes are those of a layout. -/
def Laid (format : HeaderFormat) : Prop :=
  match retry.shape with
  | .object | .exception => ∃ superclass declared shape, Image.objectLayout superclass declared format = .ok shape ∧
      retry.logicalBytes = shape.payloadBytes ∧ retry.request.blockBytes = shape.blockBytes
  | .array length => ∃ element count layout, arrayLayout element count format = .ok layout ∧
      length = layout.length ∧ retry.logicalBytes = layout.payloadBytes ∧ retry.request.blockBytes = layout.blockBytes

/-- What stands at the front of the payload of a new block. -/
def header : List UInt8 :=
  match retry.shape with
  | .array length => leBytes length
  | _ => []

/-- The charge for clearing the payload. -/
def units : Nat := (retry.logicalBytes + 15) / 16

end AllocationRetry

/-! ## The slices of an allocation -/

inductive Resumed where
  | waiting (pending : PendingAllocation) (heap : Heap) (consumed : Nat)
  | published (heap : Heap) (reference : Ref32) (consumed : Nat)
  /-- The allocation has been given up. -/
  | fault (heap : Heap) (fault : VmFault)

/-- `let _ = pending.abort(..)`. -/
def PendingAllocation.giveUp (p : PendingAllocation) (heap : Heap) : Heap :=
  match p.abort heap with
  | .ok heap => heap
  | .error _ => heap

def resumePendingAllocation (p : PendingAllocation) (heap : Heap) (consumed remaining : Nat) : Resumed :=
  if consumed + p.unitsForBudget remaining < 2 ^ 64 then
    match p.advance heap remaining with
    | .error fault => .fault (p.giveUp heap) fault
    | .ok (_, heap, used, some reference) => .published heap reference (consumed + used)
    | .ok (p, heap, used, none) => .waiting p heap (consumed + used)
  else .fault (p.giveUp heap) .accountingOverflow

/-- One slice after the other, until the allocation is over. -/
def resumes (p : PendingAllocation) (heap : Heap) (consumed : Nat) : List Nat → Resumed
  | [] => .waiting p heap consumed
  | budget :: budgets =>
    match resumePendingAllocation p heap consumed budget with
    | .waiting p heap consumed => resumes p heap consumed budgets
    | outcome => outcome

/-! ## Between the slices -/

namespace AllocationRetry

section Clearing

variable {retry : AllocationRetry} {attempted : Bool} {h₀ heap : Heap} {o n initialized : Nat} {p : PendingAllocation}

@[simp] theorem pending_state (reservation : ReservedAllocation) :
    (retry.pending reservation initialized attempted).state =
      ⟨retry.request, reservation, retry.destination, retry.logicalBytes, initialized, true, attempted⟩ := by
  unfold pending
  split <;> rfl

@[simp] theorem pending_withState (reservation : ReservedAllocation) (initialized' : Nat) :
    (retry.pending reservation initialized attempted).withState
        ⟨retry.request, reservation, retry.destination, retry.logicalBytes, initialized', true, attempted⟩ =
      retry.pending reservation initialized' attempted := by
  unfold pending
  split <;> rfl

/-- The block of an allocation and its place in the heap. -/
structure Sized (retry : AllocationRetry) (h : Heap) (n : Nat) : Prop where
  fits : h.payloadOffset + retry.logicalBytes ≤ retry.request.blockBytes
  block : retry.request.blockBytes ≤ n
  header : retry.header.length ≤ retry.logicalBytes
  small : retry.request.blockBytes < 2 ^ 31
  type : retry.request.typeId < h.headerFormat.typeLimit ∧ retry.request.typeId < 2 ^ 32

/-- **The reserved block between slices**: the first bytes of its payload are clear, and the heap counts it as
neither free nor live. -/
structure Zeroing (retry : AllocationRetry) (attempted : Bool) (h₀ : Heap) (o n : Nat) (p : PendingAllocation)
    (heap : Heap) (initialized : Nat) : Prop where
  pending : p = retry.pending ⟨o, retry.request.typeId⟩ initialized attempted
  blocks : ∃ bs, WellFormed heap bs ∧ Held bs o .reserved n
  format : heap.headerFormat = h₀.headerFormat
  le : initialized ≤ retry.logicalBytes
  aligned : initialized % 16 = 0 ∨ initialized = retry.logicalBytes
  clear : ∀ i < initialized, heap.arena (o + heap.payloadOffset + i) = 0
  free : heap.totalFree + n = h₀.totalFree
  live : heap.liveObjects = h₀.liveObjects

section

variable (h : Zeroing retry attempted h₀ o n p heap initialized)
include h

theorem Zeroing.giveUp : ∃ heap', p.abort heap = .ok heap' ∧ p.giveUp heap = heap' ∧ heap'.totalFree = h₀.totalFree ∧
      heap'.liveObjects = h₀.liveObjects := by
  obtain ⟨bs, hsound, hheld⟩ := h.blocks
  obtain ⟨heap', habort, hfree, hlive⟩ := hheld.abort (t := retry.request.typeId) hsound
  have hstate : p.abort heap = .ok heap' := by
    rw [PendingAllocation.abort, h.pending, pending_state]
    exact habort
  refine ⟨heap', hstate, ?_, by rw [hfree, h.free], hlive.trans h.live⟩
  rw [PendingAllocation.giveUp, hstate]

/-- The units that a budget pays for. -/
theorem Zeroing.units (hsize : retry.Sized h₀ n) (budget : Nat) :
    p.unitsForBudget budget = min budget ((retry.logicalBytes - initialized + 15) / 16) := by
  have hfits := hsize.fits
  have hsmall := hsize.small
  rw [PendingAllocation.unitsForBudget, h.pending, pending_state]
  rw [Nat.min_eq_left (show retry.logicalBytes - initialized + 15 ≤ 2 ^ 32 - 1 by omega)]

/-- **Clearing moves the mark by sixteen bytes for each unit.** -/
theorem Zeroing.clears (hsize : retry.Sized h₀ n) (units : Nat)
    (hunits : units ≤ (retry.logicalBytes - initialized + 15) / 16) : ∃ p' heap', p.clear heap units = .ok (p', heap') ∧
      Zeroing retry attempted h₀ o n p' heap' (min (initialized + units * 16) retry.logicalBytes) := by
  obtain ⟨bs, hsound, hheld⟩ := h.blocks
  have hoffset : heap.payloadOffset = h₀.payloadOffset := congrArg HeaderFormat.bytes h.format
  have hfits := hsize.fits
  have hblock := hsize.block
  have hsmall := hsize.small
  have hle := h.le
  have haligned := h.aligned
  -- clearing bytes of the payload leaves the rest of the invariant alone
  have hzero : ∀ offset length, offset ≤ initialized → offset + length ≤ retry.request.blockBytes - heap.payloadOffset →
      ∃ heap', heap.zeroReservedPayload ⟨o, retry.request.typeId⟩ offset length = .ok heap' ∧
        ∀ mark, mark ≤ retry.logicalBytes → (mark % 16 = 0 ∨ mark = retry.logicalBytes) →
          (mark ≤ initialized ∨ mark ≤ offset + length) →
          Zeroing retry attempted h₀ o n (retry.pending ⟨o, retry.request.typeId⟩ mark attempted) heap' mark := by
    intro offset length hoff hlen
    obtain ⟨-, bs', hsound', hkept⟩ := hheld.store hsound offset (List.replicate length 0)
      (by rw [List.length_replicate]; omega)
    refine ⟨_, hheld.zeroReserved hsound (by omega), fun mark hmark hmark16 hreach =>
      ⟨rfl, ⟨bs', hsound', (hkept _ _ _).mp hheld⟩, h.format, hmark, hmark16, fun i hi => ?_, h.free, h.live⟩⟩
    show writeBytes heap.arena (o + heap.payloadOffset + offset) (List.replicate length 0) (o + heap.payloadOffset + i) = 0
    by_cases hinside : offset ≤ i ∧ i < offset + length
    · rw [writeBytes, if_pos (by omega), List.getElem?_replicate_of_lt (by omega)]
      rfl
    · rw [writeBytes_outside (by rw [List.length_replicate]; omega)]
      exact h.clear i (by omega)
  have hpositive : heap.payloadOffset ≤ retry.request.blockBytes := by omega
  unfold PendingAllocation.clear
  rw [h.pending]
  simp only [pending_state, demand_decide hpositive, ok_bind]
  by_cases hnone : units = 0
  · rw [if_neg (not_not.mpr hnone), hnone, Nat.zero_mul, Nat.add_zero, Nat.min_eq_left hle]
    by_cases hempty : retry.logicalBytes = 0
    · obtain ⟨heap', hstored, hafter⟩ := hzero 0 (retry.request.blockBytes - heap.payloadOffset) (by omega) (by omega)
      rw [if_pos hempty, hstored, ok_bind]
      exact ⟨_, heap', rfl, hafter initialized hle haligned (.inl (Nat.le_refl _))⟩
    · rw [if_neg hempty]
      refine ⟨_, heap, rfl, ?_⟩
      rw [← h.pending]
      exact h
  · obtain ⟨heap', hstored, hafter⟩ := hzero initialized
      (min (initialized + units * 16) (retry.request.blockBytes - heap.payloadOffset) - initialized) (Nat.le_refl _)
      (by omega)
    rw [if_pos hnone, accountU32, if_pos (show units * 16 < 2 ^ 32 by omega), ok_bind, accountU32,
      if_pos (show initialized + units * 16 < 2 ^ 32 by omega), ok_bind]
    rw [hstored, ok_bind, pending_withState]
    exact ⟨_, heap', rfl, hafter _ (Nat.min_le_right _ _) (by omega) (by omega)⟩

end

/-- **A published block**: the reference names it, and its payload is clear behind the length of an array. -/
def Cleared (retry : AllocationRetry) (heap : Heap) (reference : Ref32) : Prop :=
  ∃ block, heap.liveBlock reference = .ok block ∧
    ∀ i < retry.logicalBytes, heap.arena (block + heap.payloadOffset + i) = retry.header.getD i 0

theorem Zeroing.publishes (h : Zeroing retry attempted h₀ o n p heap retry.logicalBytes) (hsize : retry.Sized h₀ n) :
    ∃ heap' reference, p.publish heap = .ok (heap', reference) ∧ retry.Cleared heap' reference := by
  obtain ⟨bs, hsound, hheld⟩ := h.blocks
  have hoffset : heap.payloadOffset = h₀.payloadOffset := congrArg HeaderFormat.bytes h.format
  have hfits := hsize.fits
  have hblock := hsize.block
  have hheader := hsize.header
  -- the length of an array is written into the cleared payload
  obtain ⟨heap₁, bs₁, hwrite, hformat₁, hsound₁, hheld₁, hbytes₁⟩ : ∃ heap₁ bs₁,
      p.writeLength heap = .ok heap₁ ∧ heap₁.headerFormat = heap.headerFormat ∧ WellFormed heap₁ bs₁ ∧
      Held bs₁ o .reserved n ∧
      ∀ i < retry.logicalBytes, heap₁.arena (o + heap.payloadOffset + i) = retry.header.getD i 0 := by
    unfold AllocationRetry.header at hheader ⊢
    rw [h.pending]
    unfold AllocationRetry.pending
    cases hshape : retry.shape with
    | object | exception => exact ⟨heap, bs, rfl, rfl, hsound, hheld, fun i hi => h.clear i hi⟩
    | array length =>
      rw [hshape] at hheader
      dsimp only at hheader ⊢
      have hroom : 0 + 4 ≤ n - heap.payloadOffset := by
        have : (leBytes length).length = 4 := rfl
        omega
      obtain ⟨-, bs₁, hsound₁, hkept⟩ := hheld.store hsound 0 (leBytes length) hroom
      refine ⟨_, bs₁, hheld.writeReservedU32 hsound hroom, rfl, hsound₁, (hkept _ _ _).mp hheld, fun i hi => ?_⟩
      show writeBytes heap.arena _ (leBytes length) _ = _
      rw [writeBytes, if_pos (by omega), show o + heap.payloadOffset + i - (o + heap.payloadOffset + 0) = i by omega,
        List.getD_eq_getElem?_getD, h.clear i hi]
  obtain ⟨heap', reference, bs', hcommit, hbits, hoffset', hsound', hheld', hkept⟩ := hheld₁.commit hsound₁
    (t := retry.request.typeId) (by rw [hformat₁, h.format]; exact hsize.type.1) hsize.type.2
  have hoffset₁ : heap₁.payloadOffset = heap.payloadOffset := congrArg HeaderFormat.bytes hformat₁
  refine ⟨heap', reference, ?_, o, hheld'.liveBlock hsound'.rep hbits, fun i hi => ?_⟩
  · unfold PendingAllocation.publish
    rw [hwrite, ok_bind, h.pending, pending_state]
    exact hcommit
  · rw [hoffset', hoffset₁, Nat.add_assoc, hkept (heap.payloadOffset + i) (by omega) (by omega), ← Nat.add_assoc]
    exact hbytes₁ i hi

/-- **One slice** clears what it pays for, and publishes the block with the last byte. -/
theorem Zeroing.advances (h : Zeroing retry attempted h₀ o n p heap initialized) (hsize : retry.Sized h₀ n)
    (budget : Nat) :
    let units := min budget ((retry.logicalBytes - initialized + 15) / 16)
    let mark := min (initialized + units * 16) retry.logicalBytes
    (mark < retry.logicalBytes ∧ ∃ p' heap', p.advance heap budget = .ok (p', heap', units, none) ∧
      Zeroing retry attempted h₀ o n p' heap' mark) ∨
    (mark = retry.logicalBytes ∧ ∃ p' heap' reference,
      p.advance heap budget = .ok (p', heap', units, some reference) ∧ retry.Cleared heap' reference) := by
  intro units mark
  obtain ⟨p', heap', hclear, h'⟩ := h.clears hsize units (Nat.min_le_right _ _)
  have hpaid : demand p.state.fixedCostPaid VmFault.corruptLifecycle = .ok () := by
    rw [h.pending, pending_state]
    rfl
  have hmark : p'.state.initializedBytes = mark ∧ p'.state.logicalBytes = retry.logicalBytes := by
    rw [h'.pending, pending_state]
    exact ⟨rfl, rfl⟩
  have hadvance : p.advance heap budget =
      (if mark < retry.logicalBytes then .ok (p', heap', units, none) else do
        let (heap, reference) ← p'.publish heap'
        return (p', heap, units, some reference)) := by
    unfold PendingAllocation.advance
    rw [h.units hsize, hpaid, ok_bind, hclear, ok_bind]
    dsimp only
    rw [hmark.1, hmark.2]
    rfl
  by_cases hlast : mark < retry.logicalBytes
  · exact .inl ⟨hlast, p', heap', by rw [hadvance, if_pos hlast], h'⟩
  · have hend : mark = retry.logicalBytes := Nat.le_antisymm (Nat.min_le_right _ _) (Nat.le_of_not_lt hlast)
    have h'' : Zeroing retry attempted h₀ o n p' heap' mark := h'
    rw [hend] at h''
    obtain ⟨heap'', reference, hpublish, hcleared⟩ := h''.publishes hsize
    refine .inr ⟨hend, p', heap'', reference, ?_, hcleared⟩
    rw [hadvance, if_neg hlast, hpublish, ok_bind]
    rfl

/-- Paying for what a budget allows brings the total charge closer to the units of the payload by as much. -/
theorem charged (hle : initialized ≤ retry.logicalBytes)
    (haligned : initialized % 16 = 0 ∨ initialized = retry.logicalBytes) (budget : Nat) :
    let units := min budget ((retry.logicalBytes - initialized + 15) / 16)
    (min (initialized + units * 16) retry.logicalBytes + 15) / 16 = (initialized + 15) / 16 + units := by
  omega

/-- **Whole allocations** from a reserved block. -/
theorem Zeroing.resumes (h : Zeroing retry attempted h₀ o n p heap initialized) (hsize : retry.Sized h₀ n)
    (consumed : Nat) (budgets : List Nat) (hrest : initialized < retry.logicalBytes ∨ initialized = 0) :
    match resumes p heap consumed budgets with
    | .waiting p' heap' consumed' => consumed' = consumed + budgets.sum ∧
        (budgets ≠ [] → (initialized + 15) / 16 + budgets.sum < retry.units) ∧
        heap'.liveObjects = h₀.liveObjects ∧ ∃ heap'', p'.abort heap' = .ok heap'' ∧
          heap''.totalFree = h₀.totalFree ∧ heap''.liveObjects = h₀.liveObjects
    | .published heap' reference consumed' =>
        consumed' + (initialized + 15) / 16 = consumed + retry.units ∧ retry.Cleared heap' reference
    | .fault heap' f => f = .accountingOverflow ∧ 2 ^ 64 + (initialized + 15) / 16 ≤ consumed + retry.units ∧
        heap'.totalFree = h₀.totalFree ∧ heap'.liveObjects = h₀.liveObjects := by
  induction budgets generalizing p heap initialized consumed with
  | nil =>
    obtain ⟨heap', habort, -, hfree, hlive⟩ := h.giveUp
    exact ⟨rfl, fun hne => absurd rfl hne, h.live, heap', habort, hfree, hlive⟩
  | cons budget budgets ih =>
    have hcharged := charged h.le h.aligned budget
    have hunits := h.units hsize budget
    have haligned := h.aligned
    unfold Compukter.resumes resumePendingAllocation
    rw [hunits, List.sum_cons]
    by_cases hcount : consumed + min budget ((retry.logicalBytes - initialized + 15) / 16) < 2 ^ 64
    · rw [if_pos hcount]
      rcases h.advances hsize budget with ⟨hless, p', heap', hadvance, h'⟩ | ⟨hend, p', heap', reference, hadvance, hcleared⟩
      · rw [hadvance]
        dsimp only
        have hall := ih h' (consumed + min budget ((retry.logicalBytes - initialized + 15) / 16)) (.inl hless)
        -- a slice that leaves something to clear has used its whole budget
        have hused : min budget ((retry.logicalBytes - initialized + 15) / 16) = budget := by omega
        split at hall
        · obtain ⟨hconsumed, hmore, hrest⟩ := hall
          refine ⟨by omega, fun _ => ?_, hrest⟩
          cases budgets with
          | nil =>
            rw [List.sum_nil]
            unfold AllocationRetry.units
            omega
          | cons =>
            have := hmore (List.cons_ne_nil _ _)
            omega
        · exact ⟨by have := hall.1; omega, hall.2⟩
        · exact ⟨hall.1, by have := hall.2.1; omega, hall.2.2⟩
      · rw [hadvance]
        refine ⟨?_, hcleared⟩
        unfold AllocationRetry.units
        omega
    · rw [if_neg hcount]
      obtain ⟨heap', -, hgive, hfree, hlive⟩ := h.giveUp
      rw [hgive]
      refine ⟨rfl, ?_, hfree, hlive⟩
      unfold AllocationRetry.units
      omega

/-- A layout has room for its payload, and that of an array for its length. -/
theorem Laid.fits {format : HeaderFormat} (h : retry.Laid format) :
    ValidSize retry.request.blockBytes ∧ format.bytes + retry.logicalBytes ≤ retry.request.blockBytes ∧
      retry.header.length ≤ retry.logicalBytes := by
  have hobject : (∃ superclass declared shape, Image.objectLayout superclass declared format = .ok shape ∧
      retry.logicalBytes = shape.payloadBytes ∧ retry.request.blockBytes = shape.blockBytes) →
      ValidSize retry.request.blockBytes ∧ format.bytes + retry.logicalBytes ≤ retry.request.blockBytes := by
    rintro ⟨superclass, declared, shape, hlayout, hlogical, hblock⟩
    obtain ⟨⟨_, _⟩, -, hlayout⟩ := bind_eq_ok.mp hlayout
    obtain ⟨bytes, hbytes, hlayout⟩ := bind_eq_ok.mp hlayout
    cases hlayout
    rw [hlogical, hblock]
    exact blockBytes_fits hbytes
  unfold Laid at h
  unfold AllocationRetry.header
  cases hshape : retry.shape with
  | object | exception =>
    rw [hshape] at h
    exact ⟨(hobject h).1, (hobject h).2, Nat.zero_le _⟩
  | array =>
    rw [hshape] at h
    obtain ⟨_, _, layout, hlayout, -, hlogical, hblock⟩ := h
    simp only [arrayLayout, bind_eq_ok] at hlayout
    obtain ⟨-, -, elements, -, payload, hpayload, _, hbytes, hlayout⟩ := hlayout
    cases hlayout
    have hsum : payload = 8 + elements := by
      have := demandSome_eq_ok.mp hpayload
      unfold Image.checkedU32 at this
      split at this
      · exact (Option.some.inj this).symm
      · cases this
    rw [hlogical, hblock]
    exact ⟨(blockBytes_fits hbytes).1, (blockBytes_fits hbytes).2, by dsimp only; rw [hsum]; show 4 ≤ _; omega⟩

end Clearing

/-- **An allocation publishes a cleared block.**  In every heap that calls and collections reach, the allocation of
an object, an exception or an array finds no block and changes nothing, or it reserves one.  Then, for every
list of budgets: a reference is made only when the whole payload is clear and an array has its length, and
the total charge is one unit for every sixteen bytes; an allocation that still waits has used its budgets up,
and giving it up takes the free bytes and the live objects back to what they were; so does the only fault, an
overflow of the charge. -/
theorem allocations_publish_cleared {plan : StoragePlan} {typeCount : Nat} {s : HeapRun} (hsel : plan.Selected typeCount)
    (hs : s.Collects plan typeCount) {retry : AllocationRetry} (hlaid : retry.Laid s.heap.headerFormat)
    (htype : retry.request.typeId < typeCount) (htype' : retry.request.typeId < 2 ^ 32) (attempted : Bool) :
    retry.reserve s.heap attempted = .ok (s.heap, none) ∨
    ∃ heap pending, retry.reserve s.heap attempted = .ok (heap, some pending) ∧ ∀ consumed budgets,
      match resumes pending heap consumed budgets with
      | .waiting p' heap' consumed' => consumed' = consumed + budgets.sum ∧
          (budgets ≠ [] → budgets.sum < retry.units) ∧
          heap'.liveObjects = s.heap.liveObjects ∧ ∃ heap'', p'.abort heap' = .ok heap'' ∧
            heap''.totalFree = s.heap.totalFree ∧ heap''.liveObjects = s.heap.liveObjects
      | .published heap' reference consumed' => consumed' = consumed + retry.units ∧ retry.Cleared heap' reference
      | .fault heap' f => f = .accountingOverflow ∧ 2 ^ 64 ≤ consumed + retry.units ∧
          heap'.totalFree = s.heap.totalFree ∧ heap'.liveObjects = s.heap.liveObjects := by
  obtain ⟨bs, hrun⟩ := hs.runOk hsel
  obtain ⟨hvalid, hfits, hheader⟩ := hlaid.fits
  have hsound := hrun.heap
  rcases hsound.reserve (t := retry.request.typeId) hvalid with
    e | ⟨heap, bs', o, n, e, hsound', hoffset, hformat, hle, hheld, -, hfree, hlive⟩
  · refine .inl ?_
    unfold AllocationRetry.reserve
    rw [show s.heap.reserve retry.request = _ from e]
    rfl
  · have hbound : retry.request.blockBytes < 2 ^ 31 := by
      obtain ⟨-, -, htotal⟩ := hheld.span hsound'.rep 0 0 (Nat.zero_le _)
      have := hsound'.rep.small
      omega
    have hsize : retry.Sized s.heap n := ⟨hfits, hle, hheader, hbound, hrun.types _ htype htype', htype'⟩
    have hstart : Zeroing retry attempted s.heap o n (retry.pending ⟨o, retry.request.typeId⟩ 0 attempted) heap 0 :=
      ⟨rfl, ⟨bs', hsound', hheld⟩, hformat, Nat.zero_le _, .inl rfl, fun i hi => absurd hi (Nat.not_lt_zero i), hfree,
        hlive⟩
    refine .inr ⟨heap, retry.pending ⟨o, retry.request.typeId⟩ 0 attempted, ?_, fun consumed budgets => ?_⟩
    · unfold AllocationRetry.reserve
      rw [show s.heap.reserve retry.request = _ from e]
      rfl
    · have hall := hstart.resumes hsize consumed budgets (.inr rfl)
      rw [show (0 + 15) / 16 = 0 by decide] at hall
      simp only [Nat.add_zero, Nat.zero_add] at hall
      exact hall

/-- An array of two longs, cleared in two slices. -/
def twoLongs : AllocationRetry := ⟨⟨32, 3⟩, 0, 24, .array 2⟩

theorem twoLongs_laid : twoLongs.Laid (HeaderFormat.select 64 4) := ⟨.i64, 2, ⟨8, 2, 24, 32⟩, by decide, rfl, rfl, rfl⟩

theorem allocations_publish_cleared_array :
    ∃ s heap pending heap' reference, HeapRun.Collects ⟨HeaderFormat.select 64 4, 64⟩ 4 s ∧
      twoLongs.reserve s.heap false = .ok (heap, some pending) ∧
      resumes pending heap 5 [1, 0, 1] = .published heap' reference 7 ∧ twoLongs.Cleared heap' reference := by
  have h0 : HeapRun.Collects ⟨HeaderFormat.select 64 4, 64⟩ 4 _ := .start _ rfl
  rcases allocations_publish_cleared (.inr rfl) h0 twoLongs_laid (by decide) (by decide) false with
    hnone | ⟨heap, pending, hreserve, hall⟩
  · cases (congrArg (fun r => (r.toOption.bind Prod.snd).isSome) hnone : true = false)
  · have hslices := hall 5 [1, 0, 1]
    obtain ⟨heap', reference, hpublished⟩ : ∃ heap' reference,
        resumes pending heap 5 [1, 0, 1] = .published heap' reference 7 := by
      cases hreserve
      exact ⟨_, _, rfl⟩
    rw [hpublished] at hslices
    exact ⟨_, heap, pending, heap', reference, h0, hreserve, hpublished, hslices.2⟩

end AllocationRetry

end Compukter
