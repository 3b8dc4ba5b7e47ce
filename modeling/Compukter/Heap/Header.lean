/-
What the header accessors do, for both header formats.

`header h o` decodes the block header at `o` with no checks: size, flags, the predecessor-or-gray link and
the type id.  Inside the arena the checked accessors return these fields, and each writer replaces ITS field
and no other.  `Frame h h' lo n` is the other half of a writer's contract: bytes outside `[lo, lo + n)` and
everything that is not in the arena stay as they were.

From here on nothing looks inside a header word, so the proofs are the same for both formats.
-/
import Compukter.Heap.Operations

namespace Compukter

open Bytes Bits Fallible Nat

/-- A decoded block header. -/
structure Header where
  (size flags link type : Nat)
  deriving DecidableEq

namespace Heap

variable (h : Heap)

/-- The header fields stored at `o`. -/
def header (o : Nat) : Header :=
  match h.headerFormat with
  | .legacy =>
    { size := readLE h.arena o 4 / 8 * 8
      flags := readLE h.arena o 4 % 8
      link := readLE h.arena (o + 4) 4
      type := readLE h.arena (o + 8) 4 }
  | .compact sizeBits linkBits =>
    { size := field (readLE h.arena o 8) 3 sizeBits * 8
      flags := field (readLE h.arena o 8) 0 3
      link := field (readLE h.arena o 8) (3 + sizeBits) linkBits * 8
      type := field (readLE h.arena o 8) (3 + sizeBits + linkBits) (64 - (3 + sizeBits + linkBits)) }

/-- The free-list links stored at `o`. -/
def nextFree (o : Nat) : Nat := readLE h.arena (o + 8) 4

def previousFree (o : Nat) : Nat := readLE h.arena (o + 12) 4

/-- The shape of a heap that never changes: arena sizes and header widths. -/
structure Shaped (h : Heap) : Prop where
  units : h.arenaBytes = 16 * h.arenaLen
  small : h.arenaBytes ≤ Ref32.maxPayload
  fits : h.headerFormat.Fits h.arenaBytes

theorem Shaped.lt {h : Heap} (hs : h.Shaped) : h.arenaBytes < 2 ^ 30 := by
  have := hs.small
  unfold Ref32.maxPayload at this
  omega

theorem Shaped.tag {h : Heap} (hs : h.Shaped) {v : Nat} (hv : v % 8 = 0) (hlt : v < h.arenaBytes) :
    h.headerFormat.Tag v := by
  have := hs.units
  exact hs.fits.tag hs.lt (by omega) hv hlt

/-- `o` can be the offset of a block: aligned, with room for a minimal block. -/
structure Slot (h : Heap) (o : Nat) : Prop where
  shaped : h.Shaped
  aligned : o % 8 = 0
  room : o + 16 ≤ h.arenaBytes

/-- Only bytes of `[lo, lo + n)` differ. -/
structure Frame (h h' : Heap) (lo n : Nat) : Prop where
  same : h' = h.setArena h'.arena
  bytes : ∀ i, i < lo ∨ lo + n ≤ i → h'.arena i = h.arena i

@[simp] theorem setArena_arena (m : Memory) : (h.setArena m).arena = m := rfl

@[simp] theorem setArena_headerFormat (m : Memory) : (h.setArena m).headerFormat = h.headerFormat := rfl

@[simp] theorem setArena_arenaBytes (m : Memory) : (h.setArena m).arenaBytes = h.arenaBytes := rfl

variable {h h' : Heap} {lo n : Nat}

theorem Frame.eq_setArena (f : Frame h h' lo n) : ∃ arena, h' = h.setArena arena := ⟨_, f.same⟩

theorem Frame.format (f : Frame h h' lo n) : h'.headerFormat = h.headerFormat := by
  rw [f.same, setArena_headerFormat]

theorem Frame.shaped (f : Frame h h' lo n) (hs : h.Shaped) : h'.Shaped := by
  rw [f.same]
  exact ⟨hs.units, hs.small, hs.fits⟩

variable {o : Nat}

theorem Frame.slot (f : Frame h h' lo n) (hs : h.Slot o) : h'.Slot o := by
  refine ⟨f.shaped hs.shaped, hs.aligned, ?_⟩
  rw [f.same]
  exact hs.room

theorem Frame.mono {lo n lo' n' : Nat} (f : Frame h h' lo n) (hlo : lo' ≤ lo) (hhi : lo + n ≤ lo' + n') :
    Frame h h' lo' n' :=
  ⟨f.same, fun i hi => f.bytes i (by omega)⟩

theorem Frame.trans {h'' : Heap} {lo n : Nat} (f : Frame h h' lo n) (g : Frame h' h'' lo n) : Frame h h'' lo n := by
  refine ⟨?_, fun i hi => (g.bytes i hi).trans (f.bytes i hi)⟩
  rw [g.same, f.same]
  rfl

/-- A header is determined by the first eight bytes of its block, and in the legacy format by the
four after them. -/
theorem header_congr (hf : h'.headerFormat = h.headerFormat) (hb : ∀ i, o ≤ i → i < o + 12 → h'.arena i = h.arena i) :
    h'.header o = h.header o := by
  have h0 : readLE h'.arena o 4 = readLE h.arena o 4 :=
    readLE_congr (fun i h1 h2 => hb i h1 (by omega))
  have h4 : readLE h'.arena (o + 4) 4 = readLE h.arena (o + 4) 4 :=
    readLE_congr (fun i h1 h2 => hb i (by omega) (by omega))
  have h8 : readLE h'.arena (o + 8) 4 = readLE h.arena (o + 8) 4 :=
    readLE_congr (fun i h1 h2 => hb i (by omega) (by omega))
  have hw : readLE h'.arena o 8 = readLE h.arena o 8 :=
    readLE_congr (fun i h1 h2 => hb i h1 (by omega))
  unfold header
  rw [hf]
  cases h.headerFormat <;> simp only [h0, h4, h8, hw]

/-- All header fields but the type id live in the first eight bytes. -/
theorem header_congr_head {g : Heap} (hf : g.headerFormat = h.headerFormat)
    (hb : ∀ i, o ≤ i → i < o + 8 → g.arena i = h.arena i) :
    (g.header o).size = (h.header o).size ∧ (g.header o).flags = (h.header o).flags ∧
      (g.header o).link = (h.header o).link := by
  have h0 : readLE g.arena o 4 = readLE h.arena o 4 :=
    readLE_congr (fun i h1 h2 => hb i h1 (by omega))
  have h4 : readLE g.arena (o + 4) 4 = readLE h.arena (o + 4) 4 :=
    readLE_congr (fun i h1 h2 => hb i (by omega) (by omega))
  have hw : readLE g.arena o 8 = readLE h.arena o 8 :=
    readLE_congr (fun i h1 h2 => hb i h1 (by omega))
  unfold header
  rw [hf]
  cases h.headerFormat <;> simp only [h0, h4, hw, and_self]

/-! ## Words -/

theorem readWord_ok {f : Nat} (hs : h.Slot o) (hf : f % 4 = 0) (hr : f ≤ 12) :
    h.readWord o f = .ok (readLE h.arena (o + f) 4) := by
  have hsmall := hs.shaped.lt
  have hunits := hs.shaped.units
  have haligned := hs.aligned
  have hroom := hs.room
  have hadd : checkedAdd o f = .ok (o + f) := by rw [checkedAdd, if_pos (by omega)]
  simp only [readWord, hadd, ok_bind, pure_eq_ok]
  rw [if_pos (by omega)]

theorem readSizeFlags_ok (hs : h.Slot o) : h.readWord o SIZE_FLAGS = .ok (readLE h.arena o 4) :=
  readWord_ok hs (by decide) (by decide)

theorem writeWord_ok {f v : Nat} (hs : h.Slot o) (hf : f % 4 = 0) (hr : f ≤ 12) :
    h.writeWord o f v = .ok (h.setArena (writeLE h.arena (o + f) 4 v)) := by
  have hsmall := hs.shaped.lt
  have hunits := hs.shaped.units
  have haligned := hs.aligned
  have hroom := hs.room
  have hadd : checkedAdd o f = .ok (o + f) := by rw [checkedAdd, if_pos (by omega)]
  simp only [writeWord, hadd, ok_bind, pure_eq_ok]
  rw [if_pos (by omega)]

theorem frame_writeLE (h : Heap) (start n v : Nat) : Frame h (h.setArena (writeLE h.arena start n v)) start n :=
  ⟨rfl, fun _ hi => writeLE_outside hi⟩

theorem readCompactHeader_ok (hs : h.Slot o) : h.readCompactHeader o = .ok (readLE h.arena o 8) := by
  have hunits := hs.shaped.units
  have haligned := hs.aligned
  have hroom := hs.room
  rw [readCompactHeader, if_pos (by omega)]

theorem writeCompactHeader_ok {v : Nat} (hs : h.Slot o) :
    h.writeCompactHeader o v = .ok (h.setArena (writeLE h.arena o 8 v)) := by
  have hunits := hs.shaped.units
  have haligned := hs.aligned
  have hroom := hs.room
  rw [writeCompactHeader, if_pos (by omega)]

theorem bitMask_eq {bits : Nat} (h : bits ≤ 64) : bitMask bits = ones bits := by
  rw [bitMask, ones, shiftRight_eq_div_pow]
  have hsplit : (2 : Nat) ^ 64 = 2 ^ bits * 2 ^ (64 - bits) := by
    rw [← Nat.pow_add, Nat.add_sub_cancel' h]
  have hpos := Nat.two_pow_pos (64 - bits)
  rw [hsplit, Nat.div_eq_iff hpos]
  constructor
  · rw [Nat.sub_mul]
    omega
  · rw [Nat.sub_mul]
    omega

theorem le_bitMask (bits v : Nat) (h : bits ≤ 64) : v ≤ bitMask bits ↔ v < 2 ^ bits := by
  have := Nat.two_pow_pos bits
  rw [bitMask_eq h, ones]
  omega

theorem sizeMask_and {w : Nat} (hw : w < 2 ^ 32) : w &&& sizeMask = w / 8 * 8 :=
  and_complement_ones hw (by decide : 3 ≤ 32)

theorem notSizeMask_and (w : Nat) : w &&& complement 32 sizeMask = w % 8 := by
  have hmask : complement 32 sizeMask = 2 ^ 3 - 1 := by decide
  rw [hmask, and_two_pow_sub_one_eq_mod]

theorem readLE_four_lt (m : Memory) (start : Nat) : readLE m start 4 < 2 ^ 32 := by
  have := readLE_lt m start 4
  exact this

theorem readLE_eight_lt (m : Memory) (start : Nat) : readLE m start 8 < 2 ^ 64 := by
  have := readLE_lt m start 8
  exact this

/-! ## Readers -/

theorem header_legacy (hf : h.headerFormat = .legacy) (o : Nat) :
    h.header o = { size := readLE h.arena o 4 / 8 * 8, flags := readLE h.arena o 4 % 8,
                   link := readLE h.arena (o + 4) 4, type := readLE h.arena (o + 8) 4 } := by
  simp only [header, hf]

theorem header_legacy_set (hf : h.headerFormat = .legacy) (m : Memory) (o : Nat) :
    (h.setArena m).header o = { size := readLE m o 4 / 8 * 8, flags := readLE m o 4 % 8,
                                link := readLE m (o + 4) 4, type := readLE m (o + 8) 4 } :=
  header_legacy (h := h.setArena m) hf o

theorem header_compact {sb lb : Nat} (hf : h.headerFormat = .compact sb lb) (o : Nat) :
    h.header o = { size := field (readLE h.arena o 8) 3 sb * 8
                   flags := field (readLE h.arena o 8) 0 3
                   link := field (readLE h.arena o 8) (3 + sb) lb * 8
                   type := field (readLE h.arena o 8) (3 + sb + lb) (64 - (3 + sb + lb)) } := by
  simp only [header, hf]

/-- The size is the header's when it is a 32-bit word. -/
theorem storedSize_eq (hs : h.Slot o) :
    h.storedSize o = if (h.header o).size < 2 ^ 32 then .ok (h.header o).size else .error .corruptHeap := by
  rcases hf : h.headerFormat with _ | ⟨sb, lb⟩
  · have hlt := readLE_four_lt h.arena o
    simp only [header_legacy hf]
    rw [if_pos (by omega)]
    simp only [storedSize, hf, readSizeFlags_ok hs, ok_bind, pure_eq_ok, sizeMask_and hlt]
  · have hwidth := hs.shaped.fits.width sb lb hf
    simp only [header_compact hf]
    simp only [storedSize, hf, readCompactHeader_ok hs, ok_bind, pure_eq_ok, bitMask_eq (show sb ≤ 64 by omega)]
    rfl

theorem storedSize_ok (hs : h.Slot o) (hhi : (h.header o).size < 2 ^ 32) : h.storedSize o = .ok (h.header o).size := by
  rw [storedSize_eq hs, if_pos hhi]

/-- Sizes are stored in units of eight bytes. -/
theorem header_size_aligned (h : Heap) (o : Nat) : (h.header o).size % 8 = 0 := by
  unfold header
  cases h.headerFormat <;> simp

/-- The link of a header is a value that its field holds. -/
theorem header_link_tag (h : Heap) (o : Nat) : h.headerFormat.Tag (h.header o).link := by
  rcases hf : h.headerFormat with _ | ⟨sb, lb⟩
  · rw [header_legacy hf]
    exact readLE_four_lt _ _
  · rw [header_compact hf]
    refine ⟨mul_mod_left _ _, ?_⟩
    rw [mul_div_left _ (by decide)]
    exact field_lt _ _ _

section

variable (hs : h.Slot o)
include hs

theorem blockSize_ok (hlo : 16 ≤ (h.header o).size) (hhi : (h.header o).size < 2 ^ 32) :
    h.blockSize o = .ok (h.header o).size := by
  have haligned := header_size_aligned h o
  simp only [blockSize, storedSize_ok hs hhi, ok_bind, pure_eq_ok]
  rw [if_neg (by unfold minimumBlockBytes blockAlignment; omega)]

theorem readFlags_ok : h.readFlags o = .ok (h.header o).flags := by
  rcases hf : h.headerFormat with _ | ⟨sb, lb⟩
  · simp only [readFlags, hf, readSizeFlags_ok hs, ok_bind, pure_eq_ok, notSizeMask_and, header_legacy hf]
  · simp only [readFlags, hf, readCompactHeader_ok hs, ok_bind, pure_eq_ok, header_compact hf]
    rfl

theorem blockAllocated_ok : h.blockAllocated o = .ok (decide ((h.header o).flags &&& ALLOCATED ≠ 0)) := by
  simp only [blockAllocated, readFlags_ok hs, ok_bind, pure_eq_ok]

theorem readPreviousOrGray_ok : h.readPreviousOrGray o = .ok (h.header o).link := by
  rcases hf : h.headerFormat with _ | ⟨sb, lb⟩
  · simp only [readPreviousOrGray, hf, header_legacy hf]
    exact readWord_ok hs (by decide) (by decide)
  · have hwidth := hs.shaped.fits.width sb lb hf
    have hlt := (header_link_tag h o).lt hs.shaped.fits
    simp only [header_compact hf] at hlt ⊢
    simp only [readPreviousOrGray, hf, readCompactHeader_ok hs, ok_bind, pure_eq_ok,
      bitMask_eq (show lb ≤ 64 by omega)]
    exact if_pos hlt

/-- The type is the header's when it is a 32-bit word. -/
theorem readType_eq :
    h.readType o = if (h.header o).type < 2 ^ 32 then .ok (h.header o).type else .error .corruptHeap := by
  rcases hf : h.headerFormat with _ | ⟨sb, lb⟩
  · simp only [readType, hf, header_legacy hf]
    rw [if_pos (readLE_four_lt _ _)]
    exact readWord_ok hs (by decide) (by decide)
  · have hwidth := hs.shaped.fits.width sb lb hf
    have htop : field (readLE h.arena o 8) (3 + sb + lb) (64 - (3 + sb + lb)) =
        readLE h.arena o 8 >>> (3 + sb + lb) := by
      apply field_top
      rw [Nat.add_sub_cancel' (by omega)]
      exact readLE_eight_lt _ _
    simp only [header_compact hf, htop]
    simp only [readType, hf, readCompactHeader_ok hs, ok_bind, pure_eq_ok]
    rfl

theorem readType_ok (hhi : (h.header o).type < 2 ^ 32) : h.readType o = .ok (h.header o).type := by
  rw [readType_eq hs, if_pos hhi]

end

/-! ## Writers -/

/-- What a link field reads back: the compact format stores the null link as zero. -/
def storedLink (format : HeaderFormat) (value : Nat) : Nat :=
  match format with
  | .legacy => value
  | .compact _ _ => if value = nullOffset then 0 else value

theorem storedLink_of_lt {format : HeaderFormat} {value : Nat} (h : value < nullOffset) :
    storedLink format value = value := by
  unfold storedLink
  split
  · rfl
  · rw [if_neg (Nat.ne_of_lt h)]

theorem header_writeCompact {sb lb w : Nat} (hf : h.headerFormat = .compact sb lb) (hw : w < 2 ^ 64) :
    (h.setArena (writeLE h.arena o 8 w)).header o =
      { size := field w 3 sb * 8, flags := field w 0 3, link := field w (3 + sb) lb * 8
        type := field w (3 + sb + lb) (64 - (3 + sb + lb)) } := by
  have hread : readLE (writeLE h.arena o 8 w) o 8 = w :=
    readLE_writeLE_same (by norm_num at hw ⊢; exact hw)
  rw [header_compact (h := h.setArena (writeLE h.arena o 8 w)) hf, setArena_arena, hread]

theorem writeFlags_ok {f : Nat} (hs : h.Slot o) (hf8 : f < 8) :
    ∃ h', h.writeFlags o f = .ok h' ∧ Frame h h' o 8 ∧ h'.header o = { h.header o with flags := f } := by
  have hcheck : ¬ f &&& complement 32 7 ≠ 0 := by
    have h8 : f / 2 ^ 3 * 2 ^ 3 = 0 := by omega
    have := and_complement_ones (W := 32) (x := f) (k := 3) (by omega) (by decide)
    rw [ones, h8] at this
    simpa using this
  rcases hf : h.headerFormat with _ | ⟨sb, lb⟩
  · have hor : readLE h.arena o 4 / 8 * 8 ||| f = readLE h.arena o 4 / 8 * 8 + f :=
      or_eq_add_of_dvd (k := 3) (dvd_mul_left _ _) hf8
    have hlt := readLE_four_lt h.arena o
    refine ⟨h.setArena (writeLE h.arena o 4 (readLE h.arena o 4 / 8 * 8 + f)), ?_,
      (frame_writeLE h o 4 _).mono (by omega) (by omega), ?_⟩
    · simp only [writeFlags, hf, if_neg hcheck, readSizeFlags_ok hs, ok_bind, sizeMask_and hlt, hor]
      exact writeWord_ok hs (by decide) (by decide)
    · rw [header_legacy_set hf, header_legacy hf]
      have h0 : readLE (writeLE h.arena o 4 (readLE h.arena o 4 / 8 * 8 + f)) o 4 =
          readLE h.arena o 4 / 8 * 8 + f := readLE_writeLE_same (by norm_num; omega)
      rw [h0, readLE_writeLE_other (by omega), readLE_writeLE_other (by omega)]
      simp only [Header.mk.injEq, and_true]
      omega
  · have hwidth := hs.shaped.fits.width sb lb hf
    have hlt := readLE_eight_lt h.arena o
    have hset := setField_lt (W := 64) 0 3 f hlt (by omega) (by omega)
    refine ⟨h.setArena (writeLE h.arena o 8 (setField 64 (readLE h.arena o 8) 0 3 f)), ?_, frame_writeLE h o 8 _, ?_⟩
    · simp only [writeFlags, hf, if_neg hcheck, readCompactHeader_ok hs, ok_bind]
      exact writeCompactHeader_ok hs
    · rw [header_writeCompact hf hset, header_compact hf]
      rw [field_setField_same (by omega) (by omega), field_setField_other (by omega) (by omega) (by omega),
        field_setField_other (by omega) (by omega) (by omega),
        field_setField_other (by omega) (by omega) (by omega)]

/-- A value that the link field of a header can take: null, or an aligned offset or size. -/
def LinkValue (h : Heap) (v : Nat) : Prop := v = nullOffset ∨ (v % 8 = 0 ∧ v < h.arenaBytes)

theorem writePreviousOrGray_ok {v : Nat} (hs : h.Slot o) (hv : h.LinkValue v) :
    ∃ h', h.writePreviousOrGray o v = .ok h' ∧ Frame h h' o 8 ∧
      h'.header o = { h.header o with link := storedLink h.headerFormat v } := by
  have hsmall := hs.shaped.lt
  rcases hf : h.headerFormat with _ | ⟨sb, lb⟩
  · have hv32 : v < 256 ^ 4 := by
      rcases hv with hv | hv
      · rw [hv]
        decide
      · omega
    refine ⟨h.setArena (writeLE h.arena (o + 4) 4 v), ?_,
      (frame_writeLE h (o + 4) 4 _).mono (by omega) (by omega), ?_⟩
    · simp only [writePreviousOrGray, hf]
      exact writeWord_ok hs (by decide) (by decide)
    · rw [header_legacy_set hf, header_legacy hf, readLE_writeLE_same hv32,
        readLE_writeLE_other (by omega), readLE_writeLE_other (by omega)]
      rfl
  · have hwidth := hs.shaped.fits.width sb lb hf
    have hlink := hs.shaped.fits.link sb lb hf
    have hlt := readLE_eight_lt h.arena o
    -- the units that are stored, and their round trip
    obtain ⟨units, hunits, hfit, hback⟩ : ∃ units, linkUnits v = .ok units ∧ units < 2 ^ lb ∧
        units * 8 = if v = nullOffset then 0 else v := by
      rcases hv with hv | ⟨hv8, hvlt⟩
      · exact ⟨0, by simp [linkUnits, hv], Nat.two_pow_pos lb, by simp [hv]⟩
      · have hne : v ≠ nullOffset := by unfold nullOffset; omega
        have h8 : ¬ v % blockAlignment ≠ 0 := by unfold blockAlignment; omega
        refine ⟨v / 8, by rw [linkUnits, if_neg hne, if_neg h8]; rfl, ?_, ?_⟩
        · have := hs.shaped.units
          omega
        · rw [if_neg hne]
          omega
    have hmask : ¬ units > bitMask lb := by
      have := (le_bitMask lb units (by omega)).mpr hfit
      omega
    have hset := setField_lt (W := 64) (3 + sb) lb _ hlt (by omega) hfit
    refine ⟨h.setArena (writeLE h.arena o 8 (setField 64 (readLE h.arena o 8) (3 + sb) lb units)),
      ?_, frame_writeLE h o 8 _, ?_⟩
    · simp only [writePreviousOrGray, hf, hunits, ok_bind, if_neg hmask, readCompactHeader_ok hs]
      rw [bitMask_eq (show lb ≤ 64 by omega)]
      exact writeCompactHeader_ok hs
    · rw [header_writeCompact hf hset, header_compact hf, field_setField_same (by omega) hfit,
        field_setField_other hfit (by omega) (by omega),
        field_setField_other hfit (by omega) (by omega),
        field_setField_other hfit (by omega) (by omega), hback]
      rfl

theorem writeType_ok {t : Nat} (hs : h.Slot o) (ht : t < h.headerFormat.typeLimit) (ht32 : t < 2 ^ 32) :
    ∃ h', h.writeType o t = .ok h' ∧ Frame h h' o h.headerFormat.bytes ∧
      h'.header o = { h.header o with type := t } := by
  rcases hf : h.headerFormat with _ | ⟨sb, lb⟩
  · refine ⟨h.setArena (writeLE h.arena (o + 8) 4 t), ?_, (frame_writeLE h (o + 8) 4 _).mono (by omega) ?_, ?_⟩
    · simp only [writeType, hf]
      exact writeWord_ok hs (by decide) (by decide)
    · change o + 8 + 4 ≤ o + 12
      omega
    · rw [header_legacy_set hf, header_legacy hf, readLE_writeLE_same (by norm_num; norm_num at ht32; exact ht32),
        readLE_writeLE_other (by omega), readLE_writeLE_other (by omega)]
  · have hwidth := hs.shaped.fits.width sb lb hf
    have hlt := readLE_eight_lt h.arena o
    rw [hf] at ht
    have hmask : ¬ t > bitMask (64 - (3 + sb + lb)) := by
      have := (le_bitMask (64 - (3 + sb + lb)) t (by omega)).mpr ht
      omega
    have hset := setField_lt (W := 64) (3 + sb + lb) _ _ hlt (by omega) ht
    refine ⟨h.setArena (writeLE h.arena o 8 (setField 64 (readLE h.arena o 8) (3 + sb + lb) (64 - (3 + sb + lb)) t)),
      ?_, frame_writeLE h o 8 _, ?_⟩
    · simp only [writeType, hf, if_neg hmask, readCompactHeader_ok hs, ok_bind]
      rw [bitMask_eq (show 64 - (3 + sb + lb) ≤ 64 by omega)]
      exact writeCompactHeader_ok hs
    · rw [header_writeCompact hf hset, header_compact hf, field_setField_same (by omega) ht,
        field_setField_other ht (by omega) (by omega),
        field_setField_other ht (by omega) (by omega),
        field_setField_other ht (by omega) (by omega)]

/-- The type field that a fresh header leaves behind: the compact header is written whole. -/
def freshType (h : Heap) (o : Nat) : Nat :=
  match h.headerFormat with
  | .legacy => (h.header o).type
  | .compact _ _ => 0

theorem writeBlockHeader_ok {size prev : Nat} (allocated : Bool) (hs : h.Slot o) (hsize : size % 8 = 0)
    (hsize' : size ≤ h.arenaBytes) (hprev : h.headerFormat.Tag prev) :
    ∃ h', h.writeBlockHeader o size prev allocated = .ok h' ∧ Frame h h' o 8 ∧
      h'.header o = { size := size, flags := allocated.toNat, link := prev
                      type := h.freshType o } := by
  have hsmall := hs.shaped.lt
  have hbool : allocated.toNat < 2 := Bool.toNat_lt allocated
  rcases hf : h.headerFormat with _ | ⟨sb, lb⟩ <;> rw [hf] at hprev
  · have hor : size ||| allocated.toNat = size + allocated.toNat :=
      or_eq_add_of_dvd (k := 3) (dvd_of_mod_eq_zero hsize) (by omega)
    have hw : h.writeWord o SIZE_FLAGS (size + allocated.toNat) =
        .ok (h.setArena (writeLE h.arena o 4 (size + allocated.toNat))) :=
      writeWord_ok hs (by decide) (by decide)
    have hs' := (frame_writeLE h o 4 (size + allocated.toNat)).slot hs
    refine ⟨h.setArena (writeLE (writeLE h.arena o 4 (size + allocated.toNat)) (o + 4) 4 prev), ?_, ?_, ?_⟩
    · simp only [writeBlockHeader, hf, hor, hw, ok_bind]
      exact writeWord_ok hs' (by decide) (by decide)
    · exact ((frame_writeLE h o 4 _).mono (by omega) (by omega)).trans
        ((frame_writeLE _ (o + 4) 4 prev).mono (by omega) (by omega))
    · rw [header_legacy_set hf]
      have h0 : readLE (writeLE (writeLE h.arena o 4 (size + allocated.toNat)) (o + 4) 4 prev)
          o 4 = size + allocated.toNat := by
        rw [readLE_writeLE_other (by omega)]
        exact readLE_writeLE_same (by norm_num; omega)
      have h4 : readLE (writeLE (writeLE h.arena o 4 (size + allocated.toNat)) (o + 4) 4 prev)
          (o + 4) 4 = prev := readLE_writeLE_same hprev
      have h8 : readLE (writeLE (writeLE h.arena o 4 (size + allocated.toNat)) (o + 4) 4 prev)
          (o + 8) 4 = readLE h.arena (o + 8) 4 := by
        rw [readLE_writeLE_other (by omega), readLE_writeLE_other (by omega)]
      simp only [h0, h4, h8, freshType, hf, header_legacy hf]
      simp only [Header.mk.injEq, and_true]
      omega
  · have hwidth := hs.shaped.fits.width sb lb hf
    have hfsize := hs.shaped.fits.size sb lb hf
    obtain ⟨hp8, hpu⟩ := hprev
    have hsu : size / 8 < 2 ^ sb := by omega
    have halloc : allocated.toNat < 2 ^ 3 := by omega
    have hm1 := (le_bitMask sb (size / 8) (by omega)).mpr hsu
    have hm2 := (le_bitMask lb (prev / 8) (by omega)).mpr hpu
    have hlow : allocated.toNat ||| (size / 8) <<< 3 < 2 ^ (3 + sb) := by
      apply Nat.or_lt_two_pow
      · exact lt_of_lt_of_le halloc (Nat.pow_le_pow_right (by decide) (by omega))
      · rw [shiftLeft_eq, Nat.pow_add, mul_comm (2 ^ 3)]
        exact Nat.mul_lt_mul_of_pos_right hsu (by decide)
    have hhigh : (prev / 8) <<< (3 + sb) < 2 ^ (3 + sb + lb) := by
      rw [shiftLeft_eq, Nat.pow_add _ (3 + sb), mul_comm (2 ^ (3 + sb))]
      exact Nat.mul_lt_mul_of_pos_right hpu (Nat.two_pow_pos _)
    have hword : allocated.toNat ||| (size / 8) <<< 3 ||| (prev / 8) <<< (3 + sb) <
        2 ^ (3 + sb + lb) :=
      Nat.or_lt_two_pow (lt_of_lt_of_le hlow (Nat.pow_le_pow_right (by decide) (by omega))) hhigh
    have hword64 := lt_of_lt_of_le hword (Nat.pow_le_pow_right (n := 2) (by decide) (show 3 + sb + lb ≤ 64 by omega))
    refine ⟨h.setArena (writeLE h.arena o 8 (allocated.toNat ||| (size / 8) <<< 3 ||| (prev / 8) <<< (3 + sb))), ?_,
      frame_writeLE h o 8 _, ?_⟩
    · simp only [writeBlockHeader, hf]
      rw [if_neg (by unfold blockAlignment; omega), if_neg (by unfold blockAlignment; omega)]
      exact writeCompactHeader_ok hs
    · rw [header_writeCompact hf hword64, field_of_lt (k := 3 + sb + lb) hword]
      simp only [field_or, freshType, hf]
      rw [field_shiftLeft_same hsu, field_shiftLeft_same hpu, field_zero_of_lt halloc,
        field_of_lt halloc, field_of_lt (k := 3 + sb) (lt_of_lt_of_le halloc
          (Nat.pow_le_pow_right (by decide) (by omega))),
        field_shiftLeft_above (s := 3) (by omega), field_shiftLeft_above (s := 3 + sb) (by omega),
        field_shiftLeft_above (s := 3 + sb) (by omega), field_shiftLeft_below hsu (by omega)]
      simp only [zero_or, or_zero, Header.mk.injEq, and_true, true_and]
      omega

end Heap

end Compukter
