/-
The segregated free lists.

`Lists h F L` says what the lists of heap `h` mean: `F o n` names the free blocks (offset and size) that are
listed, and `L c` is the list of class `c` in link order.  Each listed block is in the list of its own class
exactly once, links run both ways, a bitmap bit is set exactly when the lists it covers are non-empty, and
the largest-block hint is null or listed.

Links live in the second eight bytes of a free block.  `LinkEdit` is the footprint of a list operation:
nothing outside those bytes of the named blocks changes in the arena.
-/
import Compukter.Heap.Header
import Compukter.Heap.SizeClasses
import Compukter.Lib.Segments
import Compukter.Lib.Bitmap
import Mathlib.Data.List.Nodup

open Function

namespace Compukter.Heap

open Bytes Bits Fallible Segments Bitmap Nat List

/-! ## Footprints -/

/-- Equal offsets, or room for two minimal blocks. -/
def Apart (o o' : Nat) : Prop := o = o' ∨ o + 16 ≤ o' ∨ o' + 16 ≤ o

/-- Only the link words of the blocks in `W` differ in the arena; counts and sizes are kept. -/
structure LinkEdit (h h' : Heap) (W : Nat → Prop) : Prop where
  format : h'.headerFormat = h.headerFormat
  len : h'.arenaLen = h.arenaLen
  size : h'.arenaBytes = h.arenaBytes
  free : h'.totalFree = h.totalFree
  live : h'.liveObjects = h.liveObjects
  bytes : ∀ i, (∀ o, W o → i < o + 8 ∨ o + 16 ≤ i) → h'.arena i = h.arena i

namespace LinkEdit

variable {h h' h'' : Heap} {W W' : Nat → Prop} {o : Nat}

theorem refl (h : Heap) (W : Nat → Prop) : LinkEdit h h W :=
  ⟨rfl, rfl, rfl, rfl, rfl, fun _ _ => rfl⟩

variable (f : LinkEdit h h' W)
include f

theorem trans (g : LinkEdit h' h'' W) : LinkEdit h h'' W :=
  ⟨g.format.trans f.format, g.len.trans f.len, g.size.trans f.size, g.free.trans f.free,
    g.live.trans f.live, fun i hi => (g.bytes i hi).trans (f.bytes i hi)⟩

theorem mono (hW : ∀ o, W o → W' o) : LinkEdit h h' W' :=
  ⟨f.format, f.len, f.size, f.free, f.live, fun i hi => f.bytes i (fun o ho => hi o (hW o ho))⟩

theorem shaped (hs : h.Shaped) : h'.Shaped := by
  refine ⟨?_, ?_, ?_⟩
  · rw [f.size, f.len]
    exact hs.units
  · rw [f.size]
    exact hs.small
  · rw [f.size, f.format]
    exact hs.fits

theorem slot (hs : h.Slot o) : h'.Slot o := by
  refine ⟨f.shaped hs.shaped, hs.aligned, ?_⟩
  rw [f.size]
  exact hs.room

/-- Headers do not overlap link words. -/
theorem header (ha : ∀ w, W w → Apart w o) :
    (h'.header o).size = (h.header o).size ∧ (h'.header o).flags = (h.header o).flags ∧
      (h'.header o).link = (h.header o).link := by
  apply header_congr_head f.format
  intro i hlo hhi
  apply f.bytes
  intro w hw
  have := ha w hw
  unfold Apart at this
  omega

end LinkEdit

variable {h : Heap} {o : Nat} {h' : Heap}

theorem Frame.linkEdit {W : Nat → Prop} (f : Frame h h' (o + 8) 8) (ho : W o) : LinkEdit h h' W := by
  obtain ⟨_, rfl⟩ := f.eq_setArena
  refine ⟨rfl, rfl, rfl, rfl, rfl, fun i hi => f.bytes i ?_⟩
  have := hi o ho
  omega

/-- One of the two link words of the block at `o` is written. -/
theorem readLE_writeLink {v x d d' : Nat} (a : Nat → UInt8) (hv : v < 2 ^ 32) (hx : Apart x o)
    (hd : d = 8 ∧ d' = 12 ∨ d = 12 ∧ d' = 8) :
    readLE (writeLE a (o + d) 4 v) (x + d) 4 = (if x = o then v else readLE a (x + d) 4) ∧
      readLE (writeLE a (o + d) 4 v) (x + d') 4 = readLE a (x + d') 4 := by
  unfold Apart at hx
  refine ⟨?_, readLE_writeLE_other (by omega)⟩
  split
  · rename_i heq
    rw [heq]
    exact readLE_writeLE_same (by norm_num; norm_num at hv; exact hv)
  · exact readLE_writeLE_other (by omega)

theorem writeNext_ok {v : Nat} (hs : h.Slot o) (hv : v < 2 ^ 32) :
    ∃ h', h.writeWord o NEXT_FREE v = .ok h' ∧ Frame h h' (o + 8) 8 ∧
      ∀ x, Apart x o → h'.nextFree x = (if x = o then v else h.nextFree x) ∧ h'.previousFree x = h.previousFree x := by
  exact ⟨_, writeWord_ok hs (by decide) (by decide), (frame_writeLE h (o + 8) 4 v).mono (by omega) (by omega),
    fun x hx => readLE_writeLink h.arena hv hx (.inl ⟨rfl, rfl⟩)⟩

theorem writePrevious_ok {v : Nat} (hs : h.Slot o) (hv : v < 2 ^ 32) :
    ∃ h', h.writeWord o PREVIOUS_FREE v = .ok h' ∧ Frame h h' (o + 8) 8 ∧
      ∀ x, Apart x o → h'.previousFree x = (if x = o then v else h.previousFree x) ∧ h'.nextFree x = h.nextFree x := by
  exact ⟨_, writeWord_ok hs (by decide) (by decide), (frame_writeLE h (o + 12) 4 v).mono (by omega) (by omega),
    fun x hx => readLE_writeLink h.arena hv hx (.inr ⟨rfl, rfl⟩)⟩

/-! ## The lists -/

/-- The free lists of `h` hold exactly the blocks of `F`, class by class in the order of `L`. -/
structure Lists (h : Heap) (F : Nat → Nat → Prop) (L : Nat → List Nat) : Prop where
  shaped : h.Shaped
  slot : ∀ {o n}, F o n → h.Slot o
  size : ∀ {o n}, F o n → (h.header o).size = n
  bounds : ∀ {o n}, F o n → 16 ≤ n ∧ n ≤ h.arenaBytes
  apart : ∀ {o n o' n'}, F o n → F o' n' → Apart o o'
  mem : ∀ {c o}, o ∈ L c ↔ ∃ n, F o n ∧ classIndex (sizeClass n) = c
  nodup : ∀ c, (L c).Nodup
  head : ∀ c, c < classCount → h.classHeads c = headOr (L c) nullOffset
  linked : ∀ c, Seg h.nextFree h.previousFree nullOffset (L c) nullOffset
  bitmaps : Agrees 32 8 h.firstBitmap h.secondBitmaps (fun f s => L (f * 8 + s) ≠ [])
  hint : h.largestFreeHint = nullOffset ∨ ∃ n, F h.largestFreeHint n

namespace Lists

variable {h : Heap} {F : Nat → Nat → Prop} {L : Nat → List Nat} {o n : Nat}

section

variable (hl : Lists h F L)
include hl

theorem valid (hF : F o n) : ValidSize n := by
  have hb := hl.bounds hF
  have hsmall := hl.shaped.lt
  refine ⟨hb.1, ?_, by omega⟩
  rw [← hl.size hF]
  exact header_size_aligned h o

theorem blockSize (hF : F o n) : h.blockSize o = .ok n := by
  have hv := hl.valid hF
  have hsize := hl.size hF
  rw [blockSize_ok (hl.slot hF) (by rw [hsize]; exact hv.lo) (by rw [hsize]; exact hv.hi), hsize]

theorem ne_null (hF : F o n) : o ≠ nullOffset := by
  have hroom := (hl.slot hF).room
  have hsmall := hl.shaped.lt
  unfold nullOffset
  omega

theorem lt_null (hF : F o n) : o < 2 ^ 32 := by
  have hroom := (hl.slot hF).room
  have hsmall := hl.shaped.lt
  omega

theorem listed {c x : Nat} (hx : x ∈ L c) : ∃ n, F x n := by
  obtain ⟨n, hn, -⟩ := hl.mem.mp hx
  exact ⟨n, hn⟩

/-- A block is in the list of one class only. -/
theorem class_unique {c c' x : Nat} (hx : x ∈ L c) (hx' : x ∈ L c') : c = c' := by
  obtain ⟨m, hm, hmc⟩ := hl.mem.mp hx
  obtain ⟨m', hm', hmc'⟩ := hl.mem.mp hx'
  have hmm : m = m' := (hl.size hm).symm.trans (hl.size hm')
  rw [← hmc, hmm, hmc']

/-- A non-null class head is a listed block of that class. -/
theorem head_listed {c : Nat} (hne : headOr (L c) nullOffset ≠ nullOffset) :
    ∃ n, F (headOr (L c) nullOffset) n ∧ classIndex (sizeClass n) = c :=
  hl.mem.mp (headOr_mem hne)

end

/-- The lists depend on the set of listed blocks only. -/
theorem congr {F' : Nat → Nat → Prop} (hl : Lists h F L) (hF : ∀ o n, F' o n ↔ F o n) : Lists h F' L := by
  have heq : F' = F := by
    funext o n
    exact propext (hF o n)
  rw [heq]
  exact hl

end Lists

/-- The hint names a listed block of at least `n` bytes. -/
def Covers (F : Nat → Nat → Prop) (hint n : Nat) : Prop := ∃ m, F hint m ∧ n ≤ m

variable {F : Nat → Nat → Prop}

theorem Covers.mono {F' : Nat → Nat → Prop} {hint n n' : Nat} (h : Covers F hint n) (hF : ∀ m, F hint m → F' hint m)
    (hn : n' ≤ n) : Covers F' hint n' := by
  obtain ⟨m, hm, hle⟩ := h
  exact ⟨m, hF m hm, hn.trans hle⟩

/-! ## Insertion -/

variable {L : Nat → List Nat}

/-- The hint may be any listed block. -/
theorem Lists.setHint {hint : Nat} (hl : Lists h F L) (hh : hint = nullOffset ∨ ∃ n, F hint n) :
    Lists { h with largestFreeHint := hint } F L where
  shaped := ⟨hl.shaped.units, hl.shaped.small, hl.shaped.fits⟩
  slot hx := ⟨⟨hl.shaped.units, hl.shaped.small, hl.shaped.fits⟩, (hl.slot hx).aligned, (hl.slot hx).room⟩
  size := hl.size
  bounds := hl.bounds
  apart := hl.apart
  mem := hl.mem
  nodup := hl.nodup
  head := hl.head
  linked := hl.linked
  bitmaps := hl.bitmaps
  hint := hh

variable {n : Nat}

/-- Observing a listed block may make it the hint, and nothing else.  The hint then names a block
that is at least as large as the observed one and as the old hint. -/
theorem observeFreeBlock_spec (hl : Lists h F L) (hF : F o n) :
    ∃ h', h.observeFreeBlock o = .ok h' ∧ LinkEdit h h' (fun _ => False) ∧ Lists h' F L ∧
      Covers F h'.largestFreeHint n ∧ ∀ k, Covers F h.largestFreeHint k → Covers F h'.largestFreeHint k := by
  unfold observeFreeBlock
  rcases hl.hint with hnull | ⟨m, hm⟩
  · rw [if_pos hnull]
    refine ⟨_, rfl, ⟨rfl, rfl, rfl, rfl, rfl, fun _ _ => rfl⟩, hl.setHint (.inr ⟨n, hF⟩), ⟨n, hF, le_refl n⟩, ?_⟩
    rintro k ⟨m, hm, -⟩
    exact absurd hnull (hl.ne_null hm)
  · rw [if_neg (hl.ne_null hm)]
    simp only [hl.blockSize hF, hl.blockSize hm, ok_bind, pure_eq_ok]
    split
    · next hlt =>
      refine ⟨_, rfl, ⟨rfl, rfl, rfl, rfl, rfl, fun _ _ => rfl⟩, hl.setHint (.inr ⟨n, hF⟩),
        ⟨n, hF, le_refl n⟩, ?_⟩
      rintro k ⟨m', hm', hle⟩
      have hsame := (hl.size hm').symm.trans (hl.size hm)
      exact ⟨n, hF, by omega⟩
    · next hge => exact ⟨h, rfl, LinkEdit.refl _ _, hl, ⟨m, hm, not_lt.mp hge⟩, fun _ hk => hk⟩

theorem index_eq_iff {f s f' s' : Nat} (hs : s < 8) (hs' : s' < 8) : f * 8 + s = f' * 8 + s' ↔ f = f' ∧ s = s' := by
  omega

/-- The three link writes that put `o` in front of the list that starts at `head`. -/
theorem linkFront_ok (k : Nat) (hl : Lists h F L) (hs : h.Slot o) (hap : ∀ {o' n'}, F o' n' → o' ≠ o ∧ Apart o' o) :
    ∃ h', h.linkFront o (headOr (L k) nullOffset) = .ok h' ∧ h' = h.setArena h'.arena ∧
      LinkEdit h h' (fun x => x = o ∨ ∃ n, F x n) ∧
      h'.nextFree o = headOr (L k) nullOffset ∧ h'.previousFree o = nullOffset ∧
      ∀ x n, F x n → h'.nextFree x = h.nextFree x ∧
        h'.previousFree x = if x = headOr (L k) nullOffset then o else h.previousFree x := by
  have ho32 : o < 2 ^ 32 := by
    have := hs.room
    have hsmall := hl.shaped.lt
    omega
  have hhead32 : headOr (L k) nullOffset < 2 ^ 32 := by
    by_cases hne : headOr (L k) nullOffset = nullOffset
    · rw [hne]
      decide
    · obtain ⟨n, hn, -⟩ := hl.head_listed hne
      exact hl.lt_null hn
  obtain ⟨h1, e1, f1, l1⟩ := writeNext_ok hs hhead32
  obtain ⟨h2, e2, f2, l2⟩ := writePrevious_ok (v := nullOffset) (f1.slot hs) (by decide)
  have hoo : Apart o o := .inl rfl
  simp only [linkFront, e1, e2, ok_bind, pure_eq_ok]
  have hsame2 : h2 = h.setArena h2.arena := by
    rw [f2.same, f1.same]
    rfl
  have hedit2 : LinkEdit h h2 (fun x => x = o ∨ ∃ n, F x n) :=
    (f1.linkEdit (.inl rfl)).trans (f2.linkEdit (.inl rfl))
  have hlinks2 : ∀ x n, F x n → h2.nextFree x = h.nextFree x ∧ h2.previousFree x = h.previousFree x := by
    intro x n hx
    obtain ⟨hxo, hxa⟩ := hap hx
    have g1 := l1 x hxa
    have g2 := l2 x hxa
    rw [if_neg hxo] at g1 g2
    exact ⟨g2.2.trans g1.1, g2.1.trans g1.2⟩
  have hnext2 : h2.nextFree o = headOr (L k) nullOffset := by
    rw [(l2 o hoo).2, (l1 o hoo).1, if_pos rfl]
  have hprev2 : h2.previousFree o = nullOffset := by
    rw [(l2 o hoo).1, if_pos rfl]
  by_cases hne : headOr (L k) nullOffset = nullOffset
  · rw [if_neg (not_not.mpr hne)]
    refine ⟨h2, rfl, hsame2, hedit2, hnext2, hprev2, fun x n hx => ?_⟩
    have hxne : x ≠ headOr (L k) nullOffset := by
      rw [hne]
      exact hl.ne_null hx
    rw [if_neg hxne]
    exact hlinks2 x n hx
  · obtain ⟨m, hm, -⟩ := hl.head_listed hne
    obtain ⟨hho, hha⟩ := hap hm
    obtain ⟨h3, e3, f3, l3⟩ :=
      writePrevious_ok (v := o) (f2.slot (f1.slot (hl.slot hm))) ho32
    rw [if_pos hne, e3]
    have hoh : Apart o (headOr (L k) nullOffset) := by
      unfold Apart at hha ⊢
      omega
    refine ⟨h3, rfl, ?_, hedit2.trans (f3.linkEdit (.inr ⟨m, hm⟩)), ?_, ?_, fun x n hx => ?_⟩
    · rw [f3.same, hsame2]
      rfl
    · rw [(l3 o hoh).2, hnext2]
    · rw [(l3 o hoh).1, if_neg (Ne.symm hho), hprev2]
    · have g3 := l3 x (hl.apart hx hm)
      have g2 := hlinks2 x n hx
      refine ⟨g3.2.trans g2.1, ?_⟩
      rw [g3.1, g2.2]

/-- The lists after `o` was linked in front of its class. -/
theorem Lists.pushFront (hl : Lists h F L) (hs : h.Slot o) (hsize : (h.header o).size = n)
    (hvalid : ValidSize n) (hn : n ≤ h.arenaBytes) (hap : ∀ {o' n'}, F o' n' → o' ≠ o ∧ Apart o' o)
    (same : h' = h.setArena h'.arena) (edit : LinkEdit h h' (fun x => x = o ∨ ∃ n, F x n))
    (next : h'.nextFree o = headOr (L (classIndex (sizeClass n))) nullOffset) (prev : h'.previousFree o = nullOffset)
    (links : ∀ x m, F x m → h'.nextFree x = h.nextFree x ∧ h'.previousFree x =
      if x = headOr (L (classIndex (sizeClass n))) nullOffset then o else h.previousFree x) :
    Lists (h'.setHead (sizeClass n) o) (fun x m => F x m ∨ (x = o ∧ m = n))
      (update L (classIndex (sizeClass n)) (o :: L (classIndex (sizeClass n)))) := by
  generalize hk : classIndex (sizeClass n) = k at *
  have hslot : ∀ {x}, h.Slot x → (h'.setHead (sizeClass n) o).Slot x := fun hx =>
    ⟨⟨(edit.shaped hx.shaped).units, (edit.shaped hx.shaped).small,
      (edit.shaped hx.shaped).fits⟩, hx.aligned, (edit.slot hx).room⟩
  have hapart : ∀ {x m x' m'}, (F x m ∨ (x = o ∧ m = n)) → (F x' m' ∨ (x' = o ∧ m' = n)) → Apart x x' := by
    rintro x m x' m' (hx | ⟨rfl, -⟩) (hx' | ⟨rfl, -⟩)
    · exact hl.apart hx hx'
    · exact (hap hx).2
    · have := (hap hx').2
      unfold Apart at this ⊢
      omega
    · exact .inl rfl
  have hW : ∀ {x m}, (F x m ∨ (x = o ∧ m = n)) → ∀ w, (w = o ∨ ∃ m, F w m) → Apart w x := by
    rintro x m hx w (rfl | ⟨m', hw⟩)
    · exact hapart (.inr ⟨rfl, rfl⟩) hx
    · exact hapart (.inl hw) hx
  have hbytes : (h'.setHead (sizeClass n) o).arenaBytes = h.arenaBytes := edit.size
  have hlinks : ∀ {c x}, x ∈ L c → h'.nextFree x = h.nextFree x ∧ h'.previousFree x =
      if x = headOr (L k) nullOffset then o else h.previousFree x := fun hx => by
    obtain ⟨m, hm⟩ := hl.listed hx
    exact links _ m hm
  constructor
  · exact (hslot hs).shaped
  · rintro x m (hx | ⟨rfl, -⟩)
    · exact hslot (hl.slot hx)
    · exact hslot hs
  · intro x m hx
    refine (edit.header (hW hx)).1.trans ?_
    rcases hx with hx | ⟨rfl, rfl⟩
    · exact hl.size hx
    · exact hsize
  · rw [hbytes]
    rintro x m (hx | ⟨-, rfl⟩)
    · exact hl.bounds hx
    · exact ⟨hvalid.lo, hn⟩
  · exact hapart
  · intro c x
    by_cases hc : c = k
    · subst hc
      rw [update_self, mem_cons, hl.mem]
      constructor
      · rintro (rfl | ⟨m, hm, hmk⟩)
        · exact ⟨n, .inr ⟨rfl, rfl⟩, hk⟩
        · exact ⟨m, .inl hm, hmk⟩
      · rintro ⟨m, hm | ⟨rfl, rfl⟩, hmk⟩
        · exact .inr ⟨m, hm, hmk⟩
        · exact .inl rfl
    · rw [update_of_ne hc, hl.mem]
      constructor
      · rintro ⟨m, hm, hmk⟩
        exact ⟨m, .inl hm, hmk⟩
      · rintro ⟨m, hm | ⟨rfl, rfl⟩, hmk⟩
        · exact ⟨m, hm, hmk⟩
        · exact absurd (hmk.symm.trans hk) hc
  · intro c
    by_cases hc : c = k
    · subst hc
      rw [update_self]
      refine nodup_cons.mpr ⟨fun ho => ?_, hl.nodup c⟩
      obtain ⟨m, hm, -⟩ := hl.mem.mp ho
      exact (hap hm).1 rfl
    · rw [update_of_ne hc]
      exact hl.nodup c
  · intro c hc256
    change update h'.classHeads (classIndex (sizeClass n)) o c = _
    rw [hk]
    by_cases hc : c = k
    · subst hc
      rw [update_self, update_self, headOr_cons]
    · rw [update_of_ne hc, update_of_ne hc, same]
      exact hl.head c hc256
  · intro c
    change Seg h'.nextFree h'.previousFree nullOffset _ nullOffset
    by_cases hc : c = k
    · subst hc
      rw [update_self]
      exact (hl.linked c).push (hl.nodup c) prev next (fun x hx => (hlinks hx).1) (fun x hx => (hlinks hx).2)
    · rw [update_of_ne hc]
      refine (hl.linked c).congr (fun x hx => (hlinks hx).1) (fun x hx => ?_)
      -- a block of another class is not the head of this one
      obtain ⟨m, hm⟩ := hl.listed hx
      rw [(hlinks hx).2, if_neg]
      intro heq
      exact hc (hl.class_unique hx (heq ▸ headOr_mem (heq ▸ hl.ne_null hm)))
  · rw [same]
    refine (hl.bitmaps.set (M := fun f s => (f = (sizeClass n).first ∧ s = (sizeClass n).second) ∨
      L (f * 8 + s) ≠ []) hvalid.log2_lt (second_lt _) (fun f s => Iff.rfl)).congr ?_
    intro f s hf hs8
    have hks : f * 8 + s = k ↔ f = (sizeClass n).first ∧ s = (sizeClass n).second := by
      rw [← hk]
      exact index_eq_iff hs8 (second_lt _)
    by_cases hc : f * 8 + s = k
    · rw [hc, update_self]
      simp [hks.mp hc]
    · rw [update_of_ne hc, ← hks]
      simp [hc]
  · rw [same]
    rcases hl.hint with hh | ⟨m, hm⟩
    · exact .inl hh
    · exact .inr ⟨m, .inl hm⟩

theorem insertFree_spec (hl : Lists h F L) (hs : h.Slot o) (hsize : (h.header o).size = n)
    (hn : 16 ≤ n ∧ n ≤ h.arenaBytes) (hap : ∀ {o' n'}, F o' n' → o' ≠ o ∧ Apart o' o) :
    ∃ h', h.insertFree o = .ok h' ∧ LinkEdit h h' (fun x => x = o ∨ ∃ n, F x n) ∧
      (∃ L', Lists h' (fun x m => F x m ∨ (x = o ∧ m = n)) L') ∧
      Covers (fun x m => F x m ∨ (x = o ∧ m = n)) h'.largestFreeHint n ∧
      ∀ k, Covers F h.largestFreeHint k → Covers (fun x m => F x m ∨ (x = o ∧ m = n)) h'.largestFreeHint k := by
  have hsmall := hl.shaped.lt
  have hvalid : ValidSize n := ⟨hn.1, by rw [← hsize]; exact header_size_aligned h o, by omega⟩
  have hbs : h.blockSize o = .ok n := by
    rw [blockSize_ok hs (by rw [hsize]; exact hvalid.lo) (by rw [hsize]; exact hvalid.hi), hsize]
  obtain ⟨h3, e3, same, edit, next, prev, links⟩ :=
    linkFront_ok (classIndex (sizeClass n)) hl hs hap
  have hl4 := hl.pushFront hs hsize hvalid hn.2 hap same edit next prev links
  obtain ⟨h5, e5, edit5, hl5, hnew, hold⟩ :=
    observeFreeBlock_spec (o := o) (n := n) hl4 (.inr ⟨rfl, rfl⟩)
  have edit4 : LinkEdit h (h3.setHead (sizeClass n) o) (fun x => x = o ∨ ∃ n, F x n) :=
    ⟨edit.format, edit.len, edit.size, edit.free, edit.live, edit.bytes⟩
  have hhint : (h3.setHead (sizeClass n) o).largestFreeHint = h.largestFreeHint := by rw [same]; rfl
  refine ⟨h5, ?_, edit4.trans (edit5.mono (fun _ => False.elim)), ⟨_, hl5⟩, hnew, fun k hk =>
    hold k (hhint ▸ hk.mono (fun m => .inl) (le_refl k))⟩
  have hidx := hvalid.classIndex_lt
  simp only [insertFree, hbs, ok_bind, hvalid.freeSizeClass_eq, okOrCorrupt,
    if_neg (not_le.mpr hidx), hl.head _ hidx, e3]
  exact e5

/-! ## Removal -/

/-- The heap after the links were routed around `o`, which stood between `pre` and `post` in the
list of class `k`. -/
theorem unlink_ok {k : Nat} {pre post : List Nat} (hl : Lists h F L) (hk : k < classCount)
    (hL : L k = pre ++ o :: post) : ∃ h', h.unlink o k (h.nextFree o) (h.previousFree o) = .ok h' ∧
      LinkEdit h h' (fun x => ∃ n, F x n) ∧
      h'.classHeads = (if pre = [] then update h.classHeads k (headOr post nullOffset) else h.classHeads) ∧
      h'.firstBitmap = h.firstBitmap ∧ h'.secondBitmaps = h.secondBitmaps ∧ h'.largestFreeHint = h.largestFreeHint ∧
      ∀ x n, F x n → x ≠ o → h'.nextFree x = (if pre.getLast? = some x then h.nextFree o else h.nextFree x) ∧
        h'.previousFree x = (if post.head? = some x then h.previousFree o else h.previousFree x) := by
  have hseg := hl.linked k
  rw [hL] at hseg
  obtain ⟨hprev, hnext⟩ := hseg.neighbours
  have hlisted : ∀ {x}, x ∈ pre ++ o :: post → ∃ n, F x n := fun hx => hl.listed (hL ▸ hx)
  have hnext32 : h.nextFree o < 2 ^ 32 := readLE_four_lt _ _
  have hprev32 : h.previousFree o < 2 ^ 32 := readLE_four_lt _ _
  -- the forward link
  obtain ⟨h1, e1, edit1, heads1, hb1, hs1, hh1, l1⟩ : ∃ h1,
      (if h.previousFree o = nullOffset then
        if h.classHeads k ≠ o then .error .corruptHeap
        else .ok { h with classHeads := update h.classHeads k (h.nextFree o) }
      else h.writeWord (h.previousFree o) NEXT_FREE (h.nextFree o)) = Except.ok h1 ∧
      LinkEdit h h1 (fun x => ∃ n, F x n) ∧
      h1.classHeads = (if pre = [] then update h.classHeads k (headOr post nullOffset)
        else h.classHeads) ∧
      h1.firstBitmap = h.firstBitmap ∧ h1.secondBitmaps = h.secondBitmaps ∧
      h1.largestFreeHint = h.largestFreeHint ∧
      ∀ x n, F x n →
        h1.nextFree x = (if pre.getLast? = some x then h.nextFree o else h.nextFree x) ∧
        h1.previousFree x = h.previousFree x := by
    rcases eq_nil_or_concat pre with rfl | ⟨init, b, rfl⟩
    · have hhead : h.classHeads k = o := by
        rw [hl.head k hk, hL]
        rfl
      rw [if_pos (by rw [hprev]; rfl), if_neg (not_not.mpr hhead)]
      refine ⟨_, rfl, ⟨rfl, rfl, rfl, rfl, rfl, fun _ _ => rfl⟩, ?_, rfl, rfl, rfl, ?_⟩
      · rw [if_pos rfl, hnext]
      · intro x n _
        exact ⟨rfl, rfl⟩
    · rw [concat_eq_append] at hprev hlisted ⊢
      obtain ⟨m, hm⟩ := hlisted (x := b) (by simp)
      have hpb : h.previousFree o = b := by
        rw [hprev]
        simp
      obtain ⟨h1, e1, f1, l1⟩ := writeNext_ok (hl.slot hm) hnext32
      rw [hpb, if_neg (hl.ne_null hm), e1]
      obtain ⟨arena, rfl⟩ := f1.eq_setArena
      refine ⟨_, rfl, f1.linkEdit ⟨m, hm⟩, (if_neg (by simp)).symm, rfl, rfl, rfl, fun x n hx => ?_⟩
      rw [getLast?_append_of_ne_nil _ (by simp), getLast?_singleton]
      simp only [Option.some.injEq, eq_comm (a := b)]
      exact l1 x (hl.apart hx hm)
  simp only [unlink, e1, ok_bind, pure_eq_ok]
  -- the back link
  cases post with
  | nil =>
    rw [if_neg (by rw [hnext]; simp)]
    refine ⟨h1, rfl, edit1, heads1, hb1, hs1, hh1, fun x n hx _ => ?_⟩
    exact l1 x n hx
  | cons b =>
    obtain ⟨m, hm⟩ := hlisted (x := b) (by simp)
    have hnb : h.nextFree o = b := hnext
    obtain ⟨h2, e2, f2, l2⟩ := writePrevious_ok (edit1.slot (hl.slot hm)) hprev32
    rw [hnb, if_pos (hl.ne_null hm), e2]
    obtain ⟨arena, rfl⟩ := f2.eq_setArena
    refine ⟨_, rfl, edit1.trans (f2.linkEdit ⟨m, hm⟩), heads1, hb1, hs1, hh1, fun x n hx _ => ?_⟩
    have g1 := l1 x n hx
    have g2 := l2 x (hl.apart hx hm)
    rw [hnb] at g1
    refine ⟨g2.2.trans g1.1, ?_⟩
    rw [g2.1, g1.2, head?_cons]
    simp only [Option.some.injEq, eq_comm (a := b)]

/-- The lists after `o` was taken out of the list of class `k`. -/
theorem Lists.takeOut {k : Nat} {pre post : List Nat} (hl : Lists h F L) (hL : L k = pre ++ o :: post)
    (edit : LinkEdit h h' (fun x => ∃ n, F x n)) (heads : h'.classHeads = if pre = [] then
      update h.classHeads k (headOr post nullOffset) else h.classHeads) (links : ∀ x n, F x n → x ≠ o →
      h'.nextFree x = (if pre.getLast? = some x then h.nextFree o else h.nextFree x) ∧
      h'.previousFree x = (if post.head? = some x then h.previousFree o else h.previousFree x))
    (bitmaps : Agrees 32 8 h'.firstBitmap h'.secondBitmaps (fun f s => update L k (pre ++ post) (f * 8 + s) ≠ []))
    (hint : h'.largestFreeHint = nullOffset ∨ ∃ n, F h'.largestFreeHint n ∧ h'.largestFreeHint ≠ o) :
    Lists h' (fun x m => F x m ∧ x ≠ o) (update L k (pre ++ post)) := by
  have hnd := hl.nodup k
  rw [hL] at hnd
  have ho : o ∉ pre ++ post := fun hm => by
    have := (nodup_middle.mp hnd)
    exact (nodup_cons.mp this).1 hm
  -- a block of another class is neither neighbour of `o`
  have hother : ∀ {c x}, c ≠ k → x ∈ L c → x ∉ L k := fun hc hx hx' => hc (hl.class_unique hx hx')
  have hok : o ∈ L k := by
    rw [hL]
    simp
  constructor
  · exact edit.shaped hl.shaped
  · exact fun hx => edit.slot (hl.slot hx.1)
  · intro x m hx
    refine (edit.header ?_).1.trans (hl.size hx.1)
    rintro w ⟨m', hw⟩
    exact hl.apart hw hx.1
  · rw [edit.size]
    exact fun hx => hl.bounds hx.1
  · exact fun hx hx' => hl.apart hx.1 hx'.1
  · intro c x
    by_cases hc : c = k
    · subst hc
      have hsplit : x ∈ pre ++ post ↔ x ∈ L c ∧ x ≠ o := by
        rw [hL]
        simp only [mem_append, mem_cons]
        constructor
        · intro hx
          refine ⟨by tauto, fun heq => ho ?_⟩
          rw [← heq]
          exact mem_append.mpr hx
        · tauto
      rw [update_self, hsplit, hl.mem]
      constructor
      · rintro ⟨⟨m, hm, hmk⟩, hne⟩
        exact ⟨m, ⟨hm, hne⟩, hmk⟩
      · rintro ⟨m, ⟨hm, hne⟩, hmk⟩
        exact ⟨⟨m, hm, hmk⟩, hne⟩
    · rw [update_of_ne hc]
      constructor
      · intro hx
        obtain ⟨m, hm, hmk⟩ := hl.mem.mp hx
        exact ⟨m, ⟨hm, fun heq => hother hc hx (heq ▸ hok)⟩, hmk⟩
      · rintro ⟨m, ⟨hm, -⟩, hmk⟩
        exact hl.mem.mpr ⟨m, hm, hmk⟩
  · intro c
    by_cases hc : c = k
    · subst hc
      rw [update_self]
      exact (nodup_cons.mp (nodup_middle.mp hnd)).2
    · rw [update_of_ne hc]
      exact hl.nodup c
  · intro c hc256
    rw [heads]
    by_cases hc : c = k
    · subst hc
      rw [update_self]
      cases pre with
      | nil => simp
      | cons =>
        rw [if_neg (by simp), hl.head c hc256, hL]
        rfl
    · rw [update_of_ne hc]
      split
      · rw [update_of_ne hc]
        exact hl.head c hc256
      · exact hl.head c hc256
  · intro c
    by_cases hc : c = k
    · subst hc
      rw [update_self]
      have hseg := hl.linked c
      rw [hL] at hseg
      have hmem : ∀ y ∈ pre ++ post, ∃ n, F y n := fun y hy => hl.listed (c := c) (by
        rw [hL]
        simp only [mem_append, mem_cons] at hy ⊢
        tauto)
      have hne : ∀ y ∈ pre ++ post, y ≠ o := fun y hy heq => ho (heq ▸ hy)
      refine hseg.unlink hnd (fun y hy => ?_) (fun y hy => ?_)
      · obtain ⟨m, hm⟩ := hmem y hy
        exact (links y m hm (hne y hy)).1
      · obtain ⟨m, hm⟩ := hmem y hy
        exact (links y m hm (hne y hy)).2
    · rw [update_of_ne hc]
      have hne : ∀ x ∈ L c, x ≠ o := fun x hx heq => hother hc hx (heq ▸ hok)
      have hpre : ∀ x ∈ L c, pre.getLast? ≠ some x := fun x hx heq =>
        hother hc hx (by rw [hL]; exact mem_append_left _ (mem_of_getLast? heq))
      have hpost : ∀ x ∈ L c, post.head? ≠ some x := fun x hx heq =>
        hother hc hx (by
          rw [hL]
          exact mem_append_right _ (mem_cons_of_mem _ (mem_of_mem_head? heq)))
      refine (hl.linked c).congr (fun x hx => ?_) (fun x hx => ?_) <;> obtain ⟨m, hm⟩ := hl.listed hx
      · rw [(links x m hm (hne x hx)).1, if_neg (hpre x hx)]
      · rw [(links x m hm (hne x hx)).2, if_neg (hpost x hx)]
  · exact bitmaps
  · rcases hint with hh | ⟨n, hn, hne⟩
    · exact .inl hh
    · exact .inr ⟨n, hn, hne⟩

/-- Clearing the bits of a class keeps the bitmaps exact: the bits go when the list is empty. -/
theorem clearBitmaps_agrees {n k : Nat} {l : List Nat} (hvalid : ValidSize n) (hk : classIndex (sizeClass n) = k)
    (hb : Agrees 32 8 h.firstBitmap h.secondBitmaps (fun f s => L (f * 8 + s) ≠ [])) (hne : L k ≠ [])
    (hhead : h.classHeads k = nullOffset ↔ l = []) :
    Agrees 32 8 (h.clearBitmaps (sizeClass n)).firstBitmap (h.clearBitmaps (sizeClass n)).secondBitmaps
      (fun f s => update L k l (f * 8 + s) ≠ []) := by
  have hks : ∀ f s, s < 8 → (f * 8 + s = k ↔ f = (sizeClass n).first ∧ s = (sizeClass n).second) :=
    fun f s hs => by
      rw [← hk]
      exact index_eq_iff hs (second_lt _)
  unfold clearBitmaps
  rw [hk]
  split
  · rename_i hnull
    have hl := hhead.mp hnull
    refine (hb.clear (i := (sizeClass n).first) (j := (sizeClass n).second) hvalid.log2_lt
      (fun f s => Iff.rfl)).congr ?_
    intro f s _ hs8
    by_cases hc : f * 8 + s = k
    · rw [hc, update_self]
      simp [hl, (hks f s hs8).mp hc]
    · rw [update_of_ne hc, ← hks f s hs8]
      simp [hc]
  · rename_i hnull
    refine hb.congr ?_
    intro f s _ hs8
    by_cases hc : f * 8 + s = k
    · rw [hc, update_self]
      simp only [ne_eq, mt hhead.mpr hnull, not_false_eq_true, hne]
    · rw [update_of_ne hc]

theorem removeFree_spec (hl : Lists h F L) (hF : F o n) :
    ∃ h', h.removeFree o = .ok h' ∧ LinkEdit h h' (fun x => ∃ n, F x n) ∧
      (∃ L', Lists h' (fun x m => F x m ∧ x ≠ o) L') ∧
      ∀ k, Covers F h.largestFreeHint k → Covers (fun x m => F x m ∧ x ≠ o) h'.largestFreeHint k ∨ k ≤ n := by
  -- the hint no longer names `o`
  obtain ⟨h0, e0, edit0, hl0, hint0, hcov0⟩ : ∃ h0, h.forgetHint o = h0 ∧
      LinkEdit h h0 (fun x => ∃ n, F x n) ∧ Lists h0 F L ∧
      (h0.largestFreeHint = nullOffset ∨ ∃ n, F h0.largestFreeHint n ∧ h0.largestFreeHint ≠ o) ∧
      ∀ k, Covers F h.largestFreeHint k → Covers (fun x m => F x m ∧ x ≠ o) h0.largestFreeHint k ∨ k ≤ n := by
    refine ⟨_, rfl, ?_⟩
    unfold forgetHint
    split
    · next heq =>
      refine ⟨⟨rfl, rfl, rfl, rfl, rfl, fun _ _ => rfl⟩, hl.setHint (.inl rfl), .inl rfl, ?_⟩
      rintro k ⟨m, hm, hle⟩
      rw [heq] at hm
      exact .inr (hle.trans_eq ((hl.size hm).symm.trans (hl.size hF)))
    · next hne =>
      refine ⟨LinkEdit.refl _ _, hl, hl.hint.imp_right fun ⟨m, hm⟩ => ⟨m, hm, hne⟩, fun k hk => ?_⟩
      exact .inl (hk.mono (fun m hm => ⟨hm, hne⟩) (le_refl k))
  have hvalid := hl0.valid hF
  have hk := hvalid.classIndex_lt
  have hmem : o ∈ L (classIndex (sizeClass n)) := hl0.mem.mpr ⟨n, hF, rfl⟩
  obtain ⟨pre, post, hL⟩ := append_of_mem hmem
  obtain ⟨h2, e2, edit2, heads2, hb2, hs2, hh2, links2⟩ := unlink_ok hl0 hk hL
  -- after clearing the bitmaps everything but the two link words of `o` is in place
  have hhead : h2.classHeads (classIndex (sizeClass n)) = nullOffset ↔ pre ++ post = [] := by
    have hnn : ∀ x ∈ L (classIndex (sizeClass n)), x ≠ nullOffset := fun x hx =>
      (hl0.listed hx).elim fun _ => hl0.ne_null
    rw [hL] at hnn
    rw [heads2]
    cases pre with
    | nil =>
      cases post with
      | nil => simp
      | cons b => simp [hnn b (by simp)]
    | cons b =>
      rw [if_neg (by simp), hl0.head _ hk, hL]
      simp [hnn b (by simp)]
  have hbits : Agrees 32 8 (h2.clearBitmaps (sizeClass n)).firstBitmap (h2.clearBitmaps (sizeClass n)).secondBitmaps
      (fun f s => update L (classIndex (sizeClass n)) (pre ++ post) (f * 8 + s) ≠ []) :=
    clearBitmaps_agrees hvalid rfl (by rw [hb2, hs2]; exact hl0.bitmaps) (ne_nil_of_mem hmem) hhead
  obtain ⟨h3, e3, arena3, fields3⟩ : ∃ h3, h2.clearBitmaps (sizeClass n) = h3 ∧
      LinkEdit h2 h3 (fun _ => False) ∧
      h3.classHeads = h2.classHeads ∧ h3.largestFreeHint = h2.largestFreeHint ∧
      h3.arena = h2.arena := by
    refine ⟨_, rfl, ?_⟩
    unfold clearBitmaps
    split
    · exact ⟨⟨rfl, rfl, rfl, rfl, rfl, fun _ _ => rfl⟩, rfl, rfl, rfl⟩
    · exact ⟨LinkEdit.refl _ _, rfl, rfl, rfl⟩
  rw [e3] at hbits
  have hslot := arena3.slot (edit2.slot (hl0.slot hF))
  obtain ⟨h4, e4, f4, l4⟩ := writeNext_ok (v := nullOffset) hslot (by decide)
  obtain ⟨h5, e5, f5, l5⟩ := writePrevious_ok (v := nullOffset) (f4.slot hslot) (by decide)
  have same5 : h5 = h3.setArena h5.arena := by
    rw [f5.same, f4.same]
    rfl
  have edit5 : LinkEdit h0 h5 (fun x => ∃ n, F x n) :=
    ((edit2.trans (arena3.mono (fun _ => False.elim))).trans (f4.linkEdit ⟨n, hF⟩)).trans (f5.linkEdit ⟨n, hF⟩)
  have hh5 : h5.largestFreeHint = h0.largestFreeHint := by
    rw [same5]
    exact fields3.2.1.trans hh2
  refine ⟨h5, ?_, edit0.trans edit5, ⟨_, hl0.takeOut hL edit5 ?_ ?_ ?_ (by rw [hh5]; exact hint0)⟩,
    by rw [hh5]; exact hcov0⟩
  · have hrn : h0.readWord o NEXT_FREE = .ok (h0.nextFree o) :=
      readWord_ok (hl0.slot hF) (by decide) (by decide)
    have hrp : h0.readWord o PREVIOUS_FREE = .ok (h0.previousFree o) :=
      readWord_ok (hl0.slot hF) (by decide) (by decide)
    simp only [removeFree, e0, hl0.blockSize hF, ok_bind, hvalid.freeSizeClass_eq, okOrCorrupt, hrn, hrp, e2, e3, e4]
    exact e5
  · rw [same5]
    exact fields3.1.trans heads2
  · intro x m hx hne
    have g2 := links2 x m hx hne
    have g4 := l4 x (hl0.apart hx hF)
    have g5 := l5 x (hl0.apart hx hF)
    have gn : h3.nextFree x = h2.nextFree x := by unfold nextFree; rw [fields3.2.2]
    have gp : h3.previousFree x = h2.previousFree x := by unfold previousFree; rw [fields3.2.2]
    rw [if_neg hne] at g4 g5
    exact ⟨by rw [g5.2, g4.1, gn, g2.1], by rw [g5.1, g4.2, gp, g2.2]⟩
  · rw [same5]
    exact hbits

/-! ## Search -/

/-- A search result is a listed block that is large enough, or nothing if the hint is too small. -/
def Suitable (F : Nat → Nat → Prop) (hint r : Nat) : Except VmFault (Option Nat) → Prop
  | .ok none => ¬ Covers F hint r
  | .ok (some o) => ∃ n, F o n ∧ r ≤ n
  | .error _ => False

/-- Shifting the all-ones word left keeps exactly the bits from `k` on. -/
theorem testBit_ones_shiftLeft_mod (w k i : Nat) :
    (((2 ^ w - 1) <<< k) % 2 ^ w).testBit i = (decide (i < w) && decide (k ≤ i)) := by
  by_cases hi : i < w
  · have : i - k < w := by omega
    simp [hi, this]
  · simp [hi]

variable {r : Nat}

/-- The head of an occupied class at or above the request's class is suitable. -/
theorem selectedHead_spec {c d : SizeClass} (hl : Lists h F L) (hr : ValidSize r)
    (hc : requestSizeClass r = some c) (hd1 : d.first < 32) (hd2 : d.second < 8) (hat : d.AtLeast c)
    (hne : L (classIndex d) ≠ []) : Suitable F h.largestFreeHint r (h.selectedHead d) := by
  have hidx : classIndex d < classCount := by
    unfold classIndex classCount
    omega
  have hhead : headOr (L (classIndex d)) nullOffset ∈ L (classIndex d) := by
    cases hL : L (classIndex d) with
    | nil => exact absurd hL hne
    | cons => simp
  obtain ⟨n, hn, hcls⟩ := hl.mem.mp hhead
  have hvalid := hl.valid hn
  have hsc : sizeClass n = d := classIndex_inj (second_lt _) hd2 hcls
  simp only [selectedHead, if_neg (not_le.mpr hidx), hl.head _ hidx, ne_eq, hl.ne_null hn,
    not_false_eq_true, if_true, pure_eq_ok]
  exact ⟨n, hn, request_fits hr hvalid hc (hsc ▸ hat)⟩

theorem searchBitmaps_spec {c : SizeClass} (hl : Lists h F L) (hr : ValidSize r)
    (hc : requestSizeClass r = some c) : Suitable F h.largestFreeHint r (h.searchBitmaps r c) := by
  obtain ⟨hc1, hc2⟩ := request_bounds hr hc
  unfold searchBitmaps
  by_cases hmask : h.secondBitmaps c.first &&& ((255 <<< c.second) % 2 ^ 8) = 0
  · simp only [hmask, ne_eq, not_true_eq_false, if_false]
    by_cases hrow : (if c.first = 31 then 0
        else h.firstBitmap &&& (((2 ^ 32 - 1) <<< (c.first + 1)) % 2 ^ 32)) = 0
    · -- nothing at or above the class: only the hint is left
      rw [if_pos hrow]
      rcases hl.hint with hh | ⟨m, hm⟩
      · rw [if_neg (not_not.mpr hh)]
        rintro ⟨m, hm, -⟩
        exact hl.ne_null hm hh
      · simp only [hl.ne_null hm, not_false_eq_true, if_true, hl.blockSize hm, ok_bind]
        by_cases hge : m ≥ r
        · simp only [hge, if_true, pure_eq_ok]
          exact ⟨m, hm, hge⟩
        · rw [if_neg hge]
          rintro ⟨m', hm', hle⟩
          exact hge (hle.trans_eq ((hl.size hm').symm.trans (hl.size hm)))
    · rw [if_neg hrow]
      -- the lowest occupied row above the class
      have hc31 : c.first ≠ 31 := fun heq => hrow (if_pos heq)
      rw [if_neg hc31] at hrow ⊢
      have hlt := lt_of_le_of_lt (and_le_left
        (m := ((2 ^ 32 - 1) <<< (c.first + 1)) % 2 ^ 32)) hl.bitmaps.rowLt
      obtain ⟨hf32, hbit⟩ := trailingZeros_spec hrow hlt
      revert hf32 hbit
      generalize trailingZeros 32 (h.firstBitmap &&& (((2 ^ 32 - 1) <<< (c.first + 1)) % 2 ^ 32)) = f
      intro hf32 hbit
      rw [testBit_and, Bool.and_eq_true, testBit_ones_shiftLeft_mod, Bool.and_eq_true,
        decide_eq_true_eq, decide_eq_true_eq] at hbit
      obtain ⟨s, hs8, hN⟩ := (hl.bitmaps.row f hf32).mp hbit.1
      have hcell := (hl.bitmaps.cell f s hf32 hs8).mpr hN
      have hne : h.secondBitmaps f ≠ 0 := fun hz => by
        rw [hz, zero_testBit] at hcell
        cases hcell
      obtain ⟨ht8, htbit⟩ := trailingZeros_spec hne (hl.bitmaps.cellLt f hf32)
      rw [if_neg hne]
      exact selectedHead_spec hl hr hc hf32 ht8 (.inl hbit.2.2) ((hl.bitmaps.cell f _ hf32 ht8).mp htbit)
  · simp only [hmask, ne_eq, not_false_eq_true, if_true]
    have hlt := lt_of_le_of_lt (and_le_left (m := (255 <<< c.second) % 2 ^ 8))
      (hl.bitmaps.cellLt c.first hc1)
    obtain ⟨hs8, hbit⟩ := trailingZeros_spec hmask hlt
    rw [testBit_and, Bool.and_eq_true, show (255 : Nat) = 2 ^ 8 - 1 from rfl,
      testBit_ones_shiftLeft_mod, Bool.and_eq_true, decide_eq_true_eq, decide_eq_true_eq] at hbit
    exact selectedHead_spec hl hr hc hc1 hs8 (.inr ⟨rfl, hbit.2.2⟩) ((hl.bitmaps.cell c.first _ hc1 hs8).mp hbit.1)

theorem findSuitable_spec (hl : Lists h F L) (hr : ValidSize r) :
    Suitable F h.largestFreeHint r (h.findSuitable r) := by
  unfold findSuitable
  cases hc : requestSizeClass r with
  | none =>
    rintro ⟨m, hm, hle⟩
    have hsmall := hl.shaped.lt
    have hbound := (hl.bounds hm).2
    have hbig := two_pow_le_of_request_none hr hc
    omega
  | some c =>
    have hsearch := searchBitmaps_spec hl hr hc
    simp only [hr.freeSizeClass_eq, okOrCorrupt, ok_bind]
    by_cases hlow : sizeClass r = c
    · simpa [hlow] using hsearch
    · by_cases hnull : headOr (L (classIndex (sizeClass r))) nullOffset = nullOffset
      · simpa [hlow, hl.head _ hr.classIndex_lt, hnull] using hsearch
      · obtain ⟨m, hm, -⟩ := hl.head_listed hnull
        by_cases hge : m ≥ r
        · simp only [ne_eq, hlow, not_false_eq_true, if_true, hl.head _ hr.classIndex_lt, hnull,
            hl.blockSize hm, ok_bind, hge, pure_eq_ok]
          exact ⟨m, hm, hge⟩
        · simpa [hlow, hl.head _ hr.classIndex_lt, hnull, hl.blockSize hm, hge] using hsearch

end Compukter.Heap
