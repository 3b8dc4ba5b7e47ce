/-
Payload access stays inside its block.

A payload operation validates a span against the block's capacity (`payloadSpan_ok`) and then touches exactly
the bytes of the span.  With `Rep.setBytes` a write keeps every header, tag and free list, because the
payload of an allocated block overlaps none of them.
-/
import Compukter.Heap.Allocation

open Function

namespace Compukter.Heap

open Bytes Bits Fallible Tiling Block

/-! ## The byte loops -/

theorem writeBytes_cons (m : Memory) (start : Nat) (byte : UInt8) (bytes : List UInt8) :
    writeBytes (update m start byte) (start + 1) bytes = writeBytes m start (byte :: bytes) := by
  funext i
  unfold writeBytes
  by_cases hlt : i < start
  · rw [if_neg (by omega), if_neg (by omega), update_of_ne (by omega)]
  · by_cases heq : i = start
    · subst heq
      rw [if_neg (by omega), if_pos (Nat.le_refl _), Nat.sub_self, update_self]
      rfl
    · have hsub : i - start = (i - (start + 1)) + 1 := by omega
      rw [if_pos (by omega), if_pos (by omega), update_of_ne heq, hsub, List.getElem?_cons_succ]

theorem storeBytes_ok {h : Heap} {position : Nat} {bytes : List UInt8} (hs : h.Shaped)
    (hle : position + bytes.length ≤ h.arenaBytes) :
    h.storeBytes position bytes = .ok (h.setArena (writeBytes h.arena position bytes)) := by
  induction bytes generalizing h position with
  | nil =>
    have : writeBytes h.arena position [] = h.arena := by
      funext i
      exact writeBytes_outside (by simp; omega)
    rw [this]
    rfl
  | cons byte _ ih =>
    have hunits := hs.units
    rw [List.length_cons] at hle
    have ih' := @ih (h.setArena (update h.arena position byte))
      (position + 1) ⟨hs.units, hs.small, hs.fits⟩ (by
        rw [setArena_arenaBytes]
        omega)
    rw [storeBytes, if_pos (by omega), ih', setArena_arena, writeBytes_cons]
    rfl

theorem frame_writeBytes (h : Heap) (start : Nat) (bytes : List UInt8) :
    Frame h (h.setArena (writeBytes h.arena start bytes)) start bytes.length :=
  ⟨rfl, fun _ hi => writeBytes_outside hi⟩

theorem frame_copyWithin (h : Heap) (source target length : Nat) :
    Frame h (h.setArena (copyWithin h.arena source target length)) target length :=
  ⟨rfl, fun _ hi => copyWithin_outside hi⟩

theorem loadBytes_ok {h : Heap} (position length : Nat) (hs : h.Shaped) (hle : position + length ≤ h.arenaBytes) :
    h.loadBytes position length = .ok ((List.range length).map (fun i => h.arena (position + i))) := by
  induction length generalizing position with
  | zero => rfl
  | succ _ ih =>
    have hunits := hs.units
    simp only [loadBytes, @ih (position + 1) (by omega), ok_bind, pure_eq_ok]
    rw [if_neg (by omega), List.range_succ_eq_map, List.map_cons, List.map_map]
    simp only [Nat.add_zero, Except.ok.injEq, List.cons.injEq, true_and]
    apply List.map_congr_left
    intro i _
    congr 1
    omega

/-! ## Spans -/

section

variable {g : Grade} {h : Heap} {pre post : List Block} {b : Block}

theorem payloadSpan_ok {offset length : Nat} (hr : Rep h (pre ++ b :: post)) (hk : b.kind ≠ .hole)
    (hle : offset + length ≤ b.size - h.payloadOffset) : h.payloadSpan (total size pre) offset length =
        .ok (total size pre + h.payloadOffset + offset) ∧
      total size pre + h.payloadOffset + offset + length ≤ total size pre + b.size := by
  have hpo := payloadOffset_le h
  have hlo := (hr.ok b (by simp)).lo
  have htotal := hr.total_mid
  have hsmall := hr.small
  refine ⟨?_, by omega⟩
  simp only [payloadSpan, hr.blockSize (placed_mid pre post b) hk, ok_bind,
    checkedSub_ok (show h.payloadOffset ≤ b.size by omega),
    checkedAdd_ok (show offset + length < 2 ^ 32 by omega),
    checkedAdd_ok (show total size pre + h.payloadOffset < 2 ^ 32 by omega)]
  rw [if_neg (by omega), checkedAdd_ok (by omega)]

/-- Payload bytes of an allocated block change, and nothing else. -/
theorem Sound.setBytes {h' : Heap} {lo k : Nat} (hw : Sound g h (pre ++ b :: post))
    (ha : b.kind.allocated = true) (frame : Frame h h' lo k)
    (hlo : total size pre + h.payloadOffset ≤ lo)
    (hhi : lo + k ≤ total size pre + b.size) :
    Sound g h' (pre ++ { b with bytes := fun i => h'.arena (total size pre + i) } ::
      post) := by
  have hbk := Kind.ne_free ha
  refine ⟨hw.rep.setBytes ha frame hlo hhi, ?_, ?_, ?_, ?_⟩
  · exact hw.tidy.replace (hw.tidy.settled b (by simp)) rfl rfl hbk
  · exact fun hstrict => forall_mem_replace (hw.clean hstrict) (hw.clean hstrict b (by simp))
  · rw [frame.kept.free, hw.totalFree]
    simp
  · rw [frame.kept.live, hw.liveObjects]
    simp only [liveCount_append, liveCount_cons]
    rfl

end

end Compukter.Heap
