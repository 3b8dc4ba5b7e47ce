/-
The object graph that a collection follows.

An object of type id `t` with block bytes `f` holds the reference `ref` (`Holds image po t f ref`) in a field
of its object layout, or in an element of a reference array.  The graph has the offsets of live blocks as
vertices (`Edge`), and `RootAt` are the blocks that managed roots name.

`Closed` is what a collection relies on: every managed root, and every managed reference that a live
block holds, names a live block.
-/
import Compukter.Gc.RootOrder
import Compukter.Gc.Queue

namespace Compukter

open Bytes Fallible Tiling Heap Marking

/-- The reference stored at a position of a block. -/
def refAt (f : Memory) (position : Nat) : Option Ref32 := Ref32.fromBits (readLE f position 4)

/-- The length word of an array whose payload starts at `po`. -/
def lengthAt (f : Memory) (po : Nat) : Nat := readLE f po 4

inductive Holds (image : ImageView) (po t : Nat) (f : Memory) (ref : Ref32) : Prop
  | field (layout : ObjectLayout) (offset : Nat) :
      Collector.layoutOf image t = .ok (.object layout) → offset ∈ layout.referenceOffsets →
      refAt f (po + offset) = some ref → Holds image po t f ref
  | element (i : Nat) : Collector.layoutOf image t = .ok (.array .ref) → i < lengthAt f po →
      refAt f (po + (8 + i * 4)) = some ref → Holds image po t f ref

/-- The reference names the live block at `o`. -/
def Names (ref : Ref32) (o : Nat) : Prop := ref.domain = .managed ∧ ref.bits = o + 8

/-- The unmarked live block at `o` of the list. -/
def LiveAt (bs : List Block) (o t n : Nat) (f : Memory) : Prop := View bs o (.live t false) n f

def Edge (image : ImageView) (po : Nat) (bs : List Block) (o o' : Nat) : Prop :=
  ∃ t n f ref, LiveAt bs o t n f ∧ Holds image po t f ref ∧ Names ref o'

def RootAt (image : ImageView) (roots : RootSet) (o : Nat) : Prop :=
  ∃ ref, Root image roots ref ∧ Names ref o

/-- Managed references lead to live blocks. -/
structure Closed (image : ImageView) (roots : RootSet) (po : Nat) (bs : List Block) : Prop where
  roots : ∀ ref, Root image roots ref → ref.domain = .managed → ∃ o t n f, ref.bits = o + 8 ∧ LiveAt bs o t n f
  stored : ∀ o t n f ref, LiveAt bs o t n f → Holds image po t f ref → ref.domain = .managed →
    ∃ o' t' n' f', ref.bits = o' + 8 ∧ LiveAt bs o' t' n' f'

/-! ## Reading a reference out of a block -/

section Load

variable {h : Heap} {bs : List Block} {o t : Nat} {m : Bool} {b : Block} {ref : Ref32}

variable (hr : Rep h bs) (hb : (o, b) ∈ placed bs) (hk : b.kind = .live t m) (href : ref.bits = o + 8)
include hr hb hk href

/-- Four payload bytes of a live block: in bounds they are read, out of bounds the read fails. -/
theorem readPayload_word (offset : Nat) :
    (offset + 4 ≤ b.size - h.payloadOffset → ∃ bytes, h.readPayload ref offset 4 = .ok bytes ∧
      ofBytesLE (bytes.take 4) = readLE b.bytes (h.payloadOffset + offset) 4) ∧
    ∀ bytes, h.readPayload ref offset 4 = .ok bytes → offset + 4 ≤ b.size - h.payloadOffset := by
  have hhole : b.kind ≠ .hole := by simp [hk]
  obtain ⟨elive, -, -⟩ := liveBlock_of_mem hr hb hk href
  have hpo := payloadOffset_le h
  have hlo := (hr.okAt hb).lo
  have hle := hr.le_arena hb
  constructor
  · intro hin
    have hat : h.BlockAt o b := hr.stored _ hb
    have hstored := hat.bytes (by rw [hk]; rfl)
    obtain ⟨pre, _, rfl, rfl⟩ := placed_split hb
    obtain ⟨espan, hspan⟩ := payloadSpan_ok hr hhole hin
    have eload := loadBytes_ok (total Block.size pre + h.payloadOffset + offset) 4 hr.shaped (by omega)
    refine ⟨(List.range 4).map (fun i =>
      h.arena (total Block.size pre + h.payloadOffset + offset + i)) ++ List.replicate 4 0, ?_, ?_⟩
    · simp only [readPayload, elive, espan, ok_bind, if_neg (show ¬ 4 > 8 by omega), eload, pure_eq_ok]
    · rw [List.take_left' (by simp), ofBytesLE_range, Nat.add_assoc]
      exact readLE_shift (fun i h1 h2 => hstored i (by omega) (by omega))
  · intro bytes e
    simp only [readPayload, elive, ok_bind] at e
    obtain ⟨_, espan, -⟩ := bind_eq_ok.mp e
    simp only [payloadSpan, hr.blockSize hb hhole, ok_bind,
      checkedSub_ok (show h.payloadOffset ≤ b.size by omega)] at espan
    obtain ⟨stop, estop, erest⟩ := bind_eq_ok.mp espan
    by_cases hgt : stop > b.size - h.payloadOffset
    · rw [if_pos hgt] at erest
      cases erest
    · unfold checkedAdd at estop
      split at estop
      · cases estop
        omega
      · cases estop

/-- A reference location of a live block. -/
theorem loadValue_ref (offset : Nat) : (offset + 4 ≤ b.size - h.payloadOffset →
      loadValue h ref offset .ref = .ok (.ofReference (refAt b.bytes (h.payloadOffset + offset)))) ∧
    ∀ v, loadValue h ref offset .ref = .ok v → offset + 4 ≤ b.size - h.payloadOffset := by
  obtain ⟨hin, hout⟩ := readPayload_word hr hb hk href offset
  constructor
  · intro hle
    obtain ⟨bytes, e, hvalue⟩ := hin hle
    simp only [loadValue, ValueWidth.bytes, e, ok_bind, hvalue, pure_eq_ok, refAt]
  · intro v e
    obtain ⟨bytes, e', -⟩ := bind_eq_ok.mp e
    exact hout bytes e'

end Load

end Compukter
