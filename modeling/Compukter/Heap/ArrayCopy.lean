/-
Copies between arrays.

A copy is done over as many slices as its length needs: each slice copies as many elements as its budget
allows, in chunks of at most 256.  A copy inside one array that moves elements up starts at the end.

After any number of elements the heap is the heap from before the copy with that part of the range moved at
once, so the cuts between slices and between chunks do not show.
-/
import Compukter.Gc.Retry

namespace Compukter

open Bytes Fallible Tiling Heap Nat

/-! ## Moving a range in two parts -/

theorem copyWithin_forward {m : Memory} {source target count more : Nat}
    (hclear : target ≤ source ∨ source + count + more ≤ target) :
    copyWithin (copyWithin m source target count) (source + count) (target + count) more =
      copyWithin m source target (count + more) := by
  funext i
  unfold copyWithin
  by_cases hlate : target + count ≤ i ∧ i < target + count + more
  · rw [if_pos hlate, if_neg (by omega), if_pos (by omega)]
    congr 1
    omega
  · rw [if_neg hlate]
    by_cases hearly : target ≤ i ∧ i < target + count
    · rw [if_pos hearly, if_pos (by omega)]
    · rw [if_neg hearly, if_neg (by omega)]

theorem copyWithin_backward {m : Memory} {source target count more : Nat} (hup : source ≤ target) :
    copyWithin (copyWithin m (source + more) (target + more) count) source target more =
      copyWithin m source target (more + count) := by
  funext i
  unfold copyWithin
  by_cases hearly : target ≤ i ∧ i < target + more
  · rw [if_pos hearly, if_neg (by omega), if_pos (by omega)]
  · rw [if_neg hearly]
    by_cases hlate : target + more ≤ i ∧ i < target + more + count
    · rw [if_pos hlate, if_pos (by omega)]
      congr 1
      omega
    · rw [if_neg hlate, if_neg (by omega)]

/-! ## The pending copy -/

/-- `i32::checked_add`. -/
def checkedAddI32 (a b : Int) : Option Int := if -2 ^ 31 ≤ a + b ∧ a + b < 2 ^ 31 then some (a + b) else none

/-- `u32::checked_mul`. -/
def checkedMul (a b : Nat) : Except VmFault Nat := if a * b < 2 ^ 32 then .ok (a * b) else .error .corruptHeap

structure PendingArrayCopy where
  (source destination : Ref32)
  (sourceStart destinationStart remaining width : Nat)
  backward : Bool
  deriving DecidableEq

namespace PendingArrayCopy

/-- Each array comes with its length. -/
def new (source destination : Ref32 × Int) (sourceStart destinationStart length : Int) (width : Nat) :
    Except GuestTrap PendingArrayCopy :=
  if sourceStart < 0 ∨ destinationStart < 0 ∨ length < 0 ∨ (checkedAddI32 sourceStart length).all (· > source.2) ∨
      (checkedAddI32 destinationStart length).all (· > destination.2) then .error .indexOutOfBounds
  else .ok ⟨source.1, destination.1, sourceStart.toNat, destinationStart.toNat, length.toNat, width,
    source.1 = destination.1 ∧ destinationStart > sourceStart⟩

/-- The byte offset of an element in the payload of its array. -/
def elementOffset (start offset width : Nat) : Except VmFault Nat := do
  let index ← checkedAdd start offset
  let bytes ← checkedMul index width
  checkedAdd bytes 8

/-- One chunk. -/
def copyChunk (p : PendingArrayCopy) (heap : Heap) (count : Nat) : Except VmFault (PendingArrayCopy × Heap) := do
  let offset := if p.backward then p.remaining - count else 0
  let sourceOffset ← elementOffset p.sourceStart offset p.width
  let destinationOffset ← elementOffset p.destinationStart offset p.width
  let heap ← heap.copyPayloadRange p.source sourceOffset p.destination destinationOffset (count * p.width)
  let p := { p with remaining := p.remaining - count }
  if p.backward then return (p, heap)
  else return ({ p with
    sourceStart := p.sourceStart + count, destinationStart := p.destinationStart + count }, heap)

/-- The loop over the chunks of a slice; a chunk has an element at least, so `left` rounds are enough. -/
def copyChunks : Nat → Nat → PendingArrayCopy → Heap → Except VmFault (PendingArrayCopy × Heap)
  | _, 0, p, heap => .ok (p, heap)
  | 0, _ + 1, _, _ => .error .corruptLifecycle
  | fuel + 1, left + 1, p, heap => do
    let count := min (left + 1) 256
    let (p, heap) ← p.copyChunk heap count
    copyChunks fuel (left + 1 - count) p heap

/-- The new state, the elements paid for and whether the copy is complete. -/
def advance (p : PendingArrayCopy) (heap : Heap) (budget : Nat) :
    Except VmFault (PendingArrayCopy × Heap × Nat × Bool) := do
  let used := min p.remaining budget
  let (p, heap) ← copyChunks used used p heap
  return (p, heap, used, p.remaining == 0)

/-- The slices of a copy with their budgets; the result has the sum of what was paid. -/
def advances (p : PendingArrayCopy) (heap : Heap) : List Nat → Except VmFault (PendingArrayCopy × Heap × Nat)
  | [] => .ok (p, heap, 0)
  | budget :: budgets => do
    let (p, heap, used, _) ← p.advance heap budget
    let (p, heap, paid) ← advances p heap budgets
    return (p, heap, used + paid)

/-! ## What has been copied -/

section Copying

variable {h₀ heap : Heap} {source destination : Ref32} {o₁ n₁ o₂ n₂ ss ds length width done : Nat}
  {t₁ t₂ : Nat} {m₁ m₂ backward : Bool} {p : PendingArrayCopy}

/-- The first byte of the range in a block at `o`. -/
def rangeStart (h : Heap) (o start width : Nat) : Nat := o + h.payloadOffset + (start * width + 8)

/-- A copy between two arrays: both ranges lie in their blocks, and the order of the elements is such that none
is overwritten before it is read. -/
structure Setting (h₀ : Heap) (source destination : Ref32) (o₁ n₁ o₂ n₂ ss ds length width : Nat)
    (backward : Bool) : Prop where
  sourceBits : source.bits = o₁ + 8
  destinationBits : destination.bits = o₂ + 8
  sourceFits : 8 + (ss + length) * width ≤ n₁ - h₀.payloadOffset
  destinationFits : 8 + (ds + length) * width ≤ n₂ - h₀.payloadOffset
  order : if backward then rangeStart h₀ o₁ ss width ≤ rangeStart h₀ o₂ ds width
    else rangeStart h₀ o₂ ds width ≤ rangeStart h₀ o₁ ss width ∨
      rangeStart h₀ o₁ ss width + length * width ≤ rangeStart h₀ o₂ ds width

/-- The bytes in front of the part that has been copied. -/
def skipped (length width done : Nat) (backward : Bool) : Nat := if backward then (length - done) * width else 0

/-- **The state of a copy after `done` elements.** -/
structure Copied (h₀ : Heap) (source destination : Ref32)
    (o₁ t₁ : Nat) (m₁ : Bool) (n₁ o₂ t₂ : Nat) (m₂ : Bool) (n₂ ss ds length width : Nat) (backward : Bool)
    (p : PendingArrayCopy) (heap : Heap) (done : Nat) : Prop where
  le : done ≤ length
  pending : p = ⟨source, destination, if backward then ss else ss + done, if backward then ds else ds + done,
    length - done, width, backward⟩
  blocks : ∃ bs, WellFormed heap bs ∧ Held bs o₁ (.live t₁ m₁) n₁ ∧ Held bs o₂ (.live t₂ m₂) n₂
  moved : heap = h₀.setArena (copyWithin h₀.arena (rangeStart h₀ o₁ ss width + skipped length width done backward)
    (rangeStart h₀ o₂ ds width + skipped length width done backward) (done * width))

theorem elementOffset_ok (start offset width limit : Nat) (h : 8 + (start + offset) * width ≤ limit)
    (hlimit : limit < 2 ^ 32)
    (hstart : start + offset < 2 ^ 32) : elementOffset start offset width = .ok ((start + offset) * width + 8) := by
  unfold elementOffset checkedMul
  rw [checkedAdd_ok hstart, ok_bind, if_pos (by omega), ok_bind, checkedAdd_ok (by omega)]

/-- The moved part grows by a chunk at the end it grows at. -/
theorem moved_more {count A B : Nat} (m : Memory) (hle : done + count ≤ length)
    (horder : if backward then A ≤ B else B ≤ A ∨ A + length * width ≤ B) :
    let at' := if backward then (length - done - count) * width else done * width
    copyWithin (copyWithin m (A + skipped length width done backward) (B + skipped length width done backward)
        (done * width)) (A + at') (B + at') (count * width) =
      copyWithin m (A + skipped length width (done + count) backward)
        (B + skipped length width (done + count) backward) ((done + count) * width) := by
  have hsum : (done + count) * width = done * width + count * width := add_mul ..
  unfold skipped
  cases backward with
  | false =>
    have hroom : (done + count) * width ≤ length * width := mul_le_mul_right _ hle
    simp only [Bool.false_eq_true, if_false, add_zero] at horder ⊢
    rw [hsum]
    exact copyWithin_forward (by omega)
  | true =>
    simp only [if_true] at horder ⊢
    have hsplit : (length - done) * width = (length - done - count) * width + count * width := by
      rw [← add_mul]
      congr 1
      omega
    rw [hsum, hsplit, Nat.sub_sub, ← Nat.add_assoc, ← Nat.add_assoc, Nat.add_comm (done * width)]
    exact copyWithin_backward (by omega)

section Copied

variable (hset : Setting h₀ source destination o₁ n₁ o₂ n₂ ss ds length width backward)
  (h : Copied h₀ source destination o₁ t₁ m₁ n₁ o₂ t₂ m₂ n₂ ss ds length width backward p heap done)
  (hss : ss + length < 2 ^ 32) (hds : ds + length < 2 ^ 32)
include hset h hss hds

/-- **One chunk moves its elements.** -/
theorem Copied.chunk (count : Nat) (hle : done + count ≤ length) :
    ∃ p' heap', p.copyChunk heap count = .ok (p', heap') ∧
      Copied h₀ source destination o₁ t₁ m₁ n₁ o₂ t₂ m₂ n₂ ss ds length width backward p' heap'
        (done + count) := by
  obtain ⟨bs, hsound, hsource, hdestination⟩ := h.blocks
  have hformat : heap.payloadOffset = h₀.payloadOffset := by
    rw [h.moved]
    rfl
  -- where the chunk starts, counted from the start of the range
  obtain ⟨k, hk, hkle, hstart⟩ : ∃ k, k * width = (if backward then (length - done - count) * width else done * width) ∧
      k + count ≤ length ∧ ∀ start, (if backward then start else start + done) +
        (if backward then length - done - count else 0) = start + k := by
    cases backward with
    | false => exact ⟨done, rfl, hle, fun start => rfl⟩
    | true => exact ⟨length - done - count, rfl, by omega, fun start => rfl⟩
  have hfits : ∀ {start n : Nat}, 8 + (start + length) * width ≤ n - heap.payloadOffset →
      (start + k) * width + 8 + count * width ≤ n - heap.payloadOffset := by
    intro start n hn
    have : (start + k + count) * width ≤ (start + length) * width := mul_le_mul_right _ (by omega)
    rw [add_mul] at this
    omega
  have hfits₁ := hfits (hformat ▸ hset.sourceFits)
  have hfits₂ := hfits (hformat ▸ hset.destinationFits)
  obtain ⟨-, hend₁, htotal₁⟩ := hsource.span hsound.rep _ _ hfits₁
  obtain ⟨-, hend₂, htotal₂⟩ := hdestination.span hsound.rep _ _ hfits₂
  have hsmall := hsound.rep.small
  have hoffset₁ := elementOffset_ok (if backward then ss else ss + done)
    (if backward then length - done - count else 0) width n₁ (by rw [hstart]; omega) (by omega)
    (by rw [hstart]; omega)
  have hoffset₂ := elementOffset_ok (if backward then ds else ds + done)
    (if backward then length - done - count else 0) width n₂ (by rw [hstart]; omega) (by omega)
    (by rw [hstart]; omega)
  rw [hstart] at hoffset₁ hoffset₂
  have hcopy : heap.copyPayloadRange source ((ss + k) * width + 8) destination ((ds + k) * width + 8)
      (count * width) = .ok (heap.setArena (copyWithin heap.arena (o₁ + heap.payloadOffset + ((ss + k) * width + 8))
        (o₂ + heap.payloadOffset + ((ds + k) * width + 8)) (count * width))) := by
    unfold Heap.copyPayloadRange
    rw [hsource.copySpan hsound.rep hset.sourceBits hfits₁, ok_bind,
      hdestination.copySpan hsound.rep hset.destinationBits hfits₂]
    rfl
  obtain ⟨bs', hsound', hheld⟩ := hsound.write hdestination
    (frame_copyWithin heap (o₁ + heap.payloadOffset + ((ss + k) * width + 8)) _ (count * width)) (by omega) hend₂
  refine ⟨⟨source, destination, if backward then ss else ss + (done + count),
    if backward then ds else ds + (done + count), length - (done + count), width, backward⟩, _, ?_,
    ⟨hle, rfl, ⟨bs', hsound', (hheld _ _ _).mp hsource, (hheld _ _ _).mp hdestination⟩, ?_⟩⟩
  · rw [h.pending, copyChunk]
    rw [hoffset₁, ok_bind, hoffset₂, ok_bind, hcopy, ok_bind, Nat.sub_sub]
    by_cases hb : backward = true
    · rw [if_pos hb, if_pos hb, if_pos hb, if_pos hb, if_pos hb]
      rfl
    · rw [if_neg hb, if_neg hb, if_neg hb, if_neg hb, if_neg hb, Nat.add_assoc, Nat.add_assoc]
      rfl
  · rw [hformat, h.moved, ← moved_more h₀.arena hle hset.order, ← hk]
    have hplace : ∀ o start, o + h₀.payloadOffset + ((start + k) * width + 8) = rangeStart h₀ o start width + k * width := by
      intro o start
      rw [rangeStart, add_mul]
      omega
    rw [hplace, hplace]
    rfl

theorem Copied.chunks {fuel left : Nat} (hfuel : left ≤ fuel) (hle : done + left ≤ length) :
    ∃ p' heap', copyChunks fuel left p heap = .ok (p', heap') ∧
      Copied h₀ source destination o₁ t₁ m₁ n₁ o₂ t₂ m₂ n₂ ss ds length width backward p' heap'
        (done + left) := by
  induction fuel generalizing left p heap done with
  | zero =>
    obtain rfl : left = 0 := by omega
    exact ⟨p, heap, rfl, h⟩
  | succ fuel ih =>
    cases left with
    | zero => exact ⟨p, heap, rfl, h⟩
    | succ left =>
      obtain ⟨p', heap', hchunk, h'⟩ := h.chunk hset hss hds (min (left + 1) 256) (by omega)
      have hfewer : left + 1 - min (left + 1) 256 ≤ fuel := by omega
      obtain ⟨p'', heap'', hrest, h''⟩ := ih h' hfewer (by omega)
      refine ⟨p'', heap'', ?_, ?_⟩
      · rw [copyChunks, hchunk, ok_bind]
        exact hrest
      · rw [show done + (left + 1) = done + min (left + 1) 256 + (left + 1 - min (left + 1) 256) by omega]
        exact h''

/-- **The slices of a copy pay for the elements they move**, and move them. -/
theorem Copied.advances (budgets : List Nat) :
    ∃ p' heap', p.advances heap budgets = .ok (p', heap', min (length - done) budgets.sum) ∧
      Copied h₀ source destination o₁ t₁ m₁ n₁ o₂ t₂ m₂ n₂ ss ds length width backward p' heap'
        (done + min (length - done) budgets.sum) := by
  induction budgets generalizing p heap done with
  | nil =>
    rw [List.sum_nil, min_zero]
    exact ⟨p, heap, rfl, h⟩
  | cons budget budgets ih =>
    have hremaining : p.remaining = length - done := by
      rw [h.pending]
    obtain ⟨p', heap', hchunks, h'⟩ := h.chunks hset hss hds (le_refl (min (length - done) budget))
      (by have := h.le; omega)
    obtain ⟨p'', heap'', hrest, h''⟩ := ih h'
    have hpaid : min (length - done) budget + min (length - (done + min (length - done) budget)) budgets.sum =
        min (length - done) (budget :: budgets).sum := by
      rw [List.sum_cons]
      omega
    refine ⟨p'', heap'', ?_, ?_⟩
    · rw [PendingArrayCopy.advances, PendingArrayCopy.advance, hremaining, hchunks, ok_bind]
      dsimp only
      rw [pure_eq_ok, ok_bind]
      rw [hrest, ok_bind, pure_eq_ok, hpaid]
    · rw [← hpaid, ← Nat.add_assoc]
      exact h''

end Copied

end Copying

/-! ## Whole copies -/

/-- A reference to an array of `length` elements: its block has room for the length word and the elements. -/
def LiveArray (s : HeapRun) (ref : Ref32) (length width : Nat) : Prop :=
  ref ∈ s.references ∧ HeapOp.InBounds s.heap (ref.payload - 8) 0 (8 + length * width)

theorem new_ok {source destination : Ref32} {sourceLength destinationLength sourceStart destinationStart length width : Nat}
    (hsource : sourceLength < 2 ^ 31) (hdestination : destinationLength < 2 ^ 31)
    (hin : sourceStart + length ≤ sourceLength) (hin' : destinationStart + length ≤ destinationLength) :
    new (source, sourceLength) (destination, destinationLength) sourceStart destinationStart length width =
      .ok ⟨source, destination, sourceStart, destinationStart, length, width,
        source = destination ∧ destinationStart > sourceStart⟩ := by
  have hsum : checkedAddI32 sourceStart length = some (sourceStart + length : Int) := if_pos (by omega)
  have hsum' : checkedAddI32 destinationStart length = some (destinationStart + length : Int) := if_pos (by omega)
  have hle : ¬ (sourceStart + length : Int) > sourceLength := by omega
  have hle' : ¬ (destinationStart + length : Int) > destinationLength := by omega
  unfold new
  rw [hsum, hsum', Option.all_some, Option.all_some, decide_eq_false hle, decide_eq_false hle', if_neg (by simp)]
  simp only [Int.toNat_natCast, gt_iff_lt, Nat.cast_lt]

/-- **A copy moves its range at once, however it is cut.**  Between arrays of one width, or inside one array, for
a range that lies in both, every list of budgets runs without a fault and pays for as many elements as the
budgets allow.  The copy is complete when the budgets reach the length; the destination then holds what the
source held before, and no other byte of the heap has changed. -/
theorem array_copy_is_a_move {plan : StoragePlan} {typeCount : Nat} {s : HeapRun} (hsel : plan.Selected typeCount)
    (hs : s.Collects plan typeCount) {source destination : Ref32} {sourceLength destinationLength width : Nat}
    (hsource : LiveArray s source sourceLength width) (hdestination : LiveArray s destination destinationLength width)
    (hsmall : sourceLength < 2 ^ 31) (hsmall' : destinationLength < 2 ^ 31)
    {sourceStart destinationStart length : Nat} (hin : sourceStart + length ≤ sourceLength)
    (hin' : destinationStart + length ≤ destinationLength) :
    ∃ p, new (source, sourceLength) (destination, destinationLength) sourceStart destinationStart length width = .ok p ∧
      ∀ budgets, ∃ p' heap', p.advances s.heap budgets = .ok (p', heap', min length budgets.sum) ∧
        (p'.remaining = 0 ↔ length ≤ budgets.sum) ∧
        (p'.remaining = 0 →
          (∀ i < length * width,
            heap'.arena (rangeStart s.heap (destination.payload - 8) destinationStart width + i) =
              s.heap.arena (rangeStart s.heap (source.payload - 8) sourceStart width + i)) ∧
          (∀ i, i < rangeStart s.heap (destination.payload - 8) destinationStart width ∨
              rangeStart s.heap (destination.payload - 8) destinationStart width + length * width ≤ i →
            heap'.arena i = s.heap.arena i) ∧
          heap' = s.heap.setArena heap'.arena) := by
  obtain ⟨bs, hrun⟩ := hs.runOk hsel
  obtain ⟨o₁, t₁, m₁, n₁, hbits₁, hblock₁, hheld₁⟩ := hrun.reference_held hsource.1
  obtain ⟨o₂, t₂, m₂, n₂, hbits₂, hblock₂, hheld₂⟩ := hrun.reference_held hdestination.1
  have hcap₁ := hheld₁.inBounds hrun.heap.rep (hblock₁ ▸ hsource.2)
  have hcap₂ := hheld₂.inBounds hrun.heap.rep (hblock₂ ▸ hdestination.2)
  have hend₁ : (sourceStart + length) * width ≤ sourceLength * width := Nat.mul_le_mul_right _ hin
  have hend₂ : (destinationStart + length) * width ≤ destinationLength * width := Nat.mul_le_mul_right _ hin'
  have hset : Setting s.heap source destination o₁ n₁ o₂ n₂ sourceStart destinationStart length width
      (source = destination ∧ destinationStart > sourceStart) := by
    refine ⟨hbits₁, hbits₂, by omega, by omega, ?_⟩
    unfold rangeStart
    by_cases hsame : source = destination
    · -- inside one array the direction keeps what is still to be read
      obtain rfl : o₁ = o₂ := by
        rw [hsame] at hbits₁
        omega
      by_cases hup : destinationStart > sourceStart
      · have : sourceStart * width ≤ destinationStart * width := Nat.mul_le_mul_right _ (Nat.le_of_lt hup)
        rw [if_pos (by simp only [hsame, hup, and_self, decide_true])]
        omega
      · have : destinationStart * width ≤ sourceStart * width := Nat.mul_le_mul_right _ (Nat.le_of_not_lt hup)
        rw [if_neg (by simp only [hup, and_false, decide_false, Bool.false_eq_true, not_false_eq_true])]
        omega
    · -- two arrays have no byte in common
      have hne : o₁ ≠ o₂ := by
        intro heq
        refine hsame ?_
        obtain ⟨b₁, _, _⟩ := source
        obtain ⟨b₂, _, _⟩ := destination
        obtain rfl : b₁ = b₂ := by
          dsimp only at hbits₁ hbits₂
          omega
        rfl
      rw [Nat.add_mul] at hend₁ hend₂
      rw [if_neg (by simp only [hsame, false_and, decide_false, Bool.false_eq_true, not_false_eq_true])]
      rcases hheld₁.apart hheld₂ hne with happart | happart <;> omega
  have hstart : Copied s.heap source destination o₁ t₁ m₁ n₁ o₂ t₂ m₂ n₂ sourceStart destinationStart length
      width (source = destination ∧ destinationStart > sourceStart)
      ⟨source, destination, sourceStart, destinationStart, length, width,
        source = destination ∧ destinationStart > sourceStart⟩ s.heap 0 := by
    refine ⟨Nat.zero_le _, ?_, ⟨bs, hrun.heap, hheld₁, hheld₂⟩, ?_⟩
    · simp only [Nat.add_zero, Nat.sub_zero, ite_self]
    · rw [Nat.zero_mul]
      have hnone : ∀ A B, copyWithin s.heap.arena A B 0 = s.heap.arena := fun A B => funext fun i => if_neg (by omega)
      rw [hnone]
      rfl
  refine ⟨_, new_ok hsmall hsmall' hin hin', fun budgets => ?_⟩
  obtain ⟨p', heap', hadvances, h⟩ := hstart.advances hset (by omega) (by omega) budgets
  rw [Nat.sub_zero, Nat.zero_add] at h
  have hremaining : p'.remaining = length - min length budgets.sum := by
    rw [h.pending]
  refine ⟨p', heap', hadvances, by omega, fun hdone => ?_⟩
  have hall : min length budgets.sum = length := by omega
  have hmoved := h.moved
  rw [hall, skipped, Nat.sub_self, Nat.zero_mul, ite_self, Nat.add_zero, Nat.add_zero] at hmoved
  rw [hblock₁, hblock₂, hmoved]
  refine ⟨fun i hi => ?_, fun i hi => if_neg (by omega), rfl⟩
  show copyWithin _ _ _ _ _ = _
  rw [copyWithin, if_pos (by omega)]
  congr 1
  omega

/-- Three of four words move up by one inside an array. -/
theorem array_copy_is_a_move_overlap :
    ∃ s source, HeapRun.Reachable ⟨HeaderFormat.select 64 4, 64⟩ 4 s ∧ LiveArray s source 4 4 ∧
      ∃ p, new (source, 4) (source, 4) 0 1 3 4 = .ok p ∧ p.backward = true ∧
        ∃ p' heap', p.advances s.heap [1, 0, 2] = .ok (p', heap', 3) ∧ p'.remaining = 0 := by
  have h0 : HeapRun.Reachable ⟨HeaderFormat.select 64 4, 64⟩ 4 _ := .start _ rfl
  have h1 := h0.step _ _ (.reserve ⟨32, 3⟩) ⟨by decide, by decide, by decide⟩ rfl
  have h2 := h1.step _ _ (.commit ⟨0, 3⟩) (List.mem_singleton.mpr rfl) rfl
  obtain ⟨p, hnew, hall⟩ := @array_copy_is_a_move _ _ _ (.inr rfl) h2.collects _ _ 4 4 4
    ⟨List.mem_singleton.mpr rfl, 32, rfl, by decide⟩ ⟨List.mem_singleton.mpr rfl, 32, rfl, by decide⟩
    (by decide) (by decide) 0 1 3 (by decide) (by decide)
  obtain ⟨p', heap', hadvances, hdone, -⟩ := hall [1, 0, 2]
  refine ⟨_, _, h2, ⟨List.mem_singleton.mpr rfl, 32, rfl, by decide⟩, p, hnew, ?_, p', heap', hadvances,
    hdone.mpr (by decide)⟩
  cases hnew
  rfl

end PendingArrayCopy

end Compukter
