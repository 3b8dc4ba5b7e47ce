/-
One step of an operation, on the abstract heap.

Each lemma runs one primitive of the allocator at the offset of a block and says which block of
the list changes and how: take a block out of the free lists (`detach`), put one in (`attach`),
write a link, flags, a type id, a whole header, or payload bytes.

`Kept` is what every step has in common: the shape of the heap and its two counters stay.
-/
import Compukter.Heap.Blocks

namespace Compukter.Heap

open Bytes Bits Fallible Tiling List
open Block (size)

/-- Arena size, header format and counters are as before. -/
structure Kept (h h' : Heap) : Prop where
  format : h'.headerFormat = h.headerFormat
  size : h'.arenaBytes = h.arenaBytes
  free : h'.totalFree = h.totalFree
  live : h'.liveObjects = h.liveObjects

theorem Kept.refl (h : Heap) : Kept h h := ⟨rfl, rfl, rfl, rfl⟩

theorem Kept.trans {h h' h'' : Heap} (f : Kept h h') (g : Kept h' h'') : Kept h h'' :=
  ⟨g.format.trans f.format, g.size.trans f.size, g.free.trans f.free, g.live.trans f.live⟩

variable {h h' : Heap}

theorem LinkEdit.kept {W : Nat → Prop} (e : LinkEdit h h' W) : Kept h h' :=
  ⟨e.format, e.size, e.free, e.live⟩

theorem Frame.kept {lo n : Nat} (f : Frame h h' lo n) : Kept h h' := by
  rw [f.same]
  exact ⟨rfl, rfl, rfl, rfl⟩

theorem Frame.hint {lo n : Nat} (f : Frame h h' lo n) : h'.largestFreeHint = h.largestFreeHint := by
  rw [f.same]
  rfl

/-- The counters are no part of the representation. -/
theorem Rep.setCounts {h : Heap} {bs : List Block} (hr : Rep h bs) (free live : Nat) :
    Rep { h with totalFree := free, liveObjects := live } bs := by
  have hshape : Shaped { h with totalFree := free, liveObjects := live } :=
    ⟨hr.shaped.units, hr.shaped.small, hr.shaped.fits⟩
  obtain ⟨L, hl⟩ := hr.lists
  refine ⟨hshape, hr.tiles, hr.ok, fun e he => ?_, L, ?_⟩
  · have hb := hr.stored e he
    exact ⟨hb.size, hb.flags, hb.link, hb.type, hb.bytes⟩
  · exact ⟨hshape, fun hx => ⟨hshape, (hl.slot hx).aligned, (hl.slot hx).room⟩, hl.size, hl.bounds,
      hl.apart, hl.mem, hl.nodup, hl.head, hl.linked, hl.bitmaps, hl.hint⟩

/-! ## Blocks in the middle of the list -/

section Middle

variable {h h' : Heap} {pre post : List Block} {b d : Block} {o n : Nat}

theorem mem_placed_mid {e : Nat × Block} : e ∈ placed (pre ++ b :: post) ↔ e ∈ placed pre ∨
    e = (total size pre, b) ∨ e ∈ place size (total size pre + b.size) post := by
  simp

/-- The blocks left and right of `b` are those that start elsewhere. -/
theorem placed_elsewhere (hpos : ∀ c ∈ pre ++ b :: post, 0 < c.size) {e : Nat × Block} :
    e ∈ placed (pre ++ b :: post) ∧ e.1 ≠ total size pre ↔
      e ∈ placed pre ∨ e ∈ place size (total size pre + b.size) post := by
  rw [mem_placed_mid]
  constructor
  · rintro ⟨he | rfl | he, hne⟩
    · exact .inl he
    · exact absurd rfl hne
    · exact .inr he
  · rintro (he | he)
    · have h1 := (place_bounds he).2
      have h2 := hpos _ (mem_append_left _ (mem_of_mem_place he))
      exact ⟨.inl he, by omega⟩
    · have h1 := (place_bounds he).1
      have h2 := hpos b (by simp)
      exact ⟨.inr (.inr he), by omega⟩

theorem placed_mid (pre post : List Block) (b : Block) : (total size pre, b) ∈ placed (pre ++ b :: post) :=
  mem_placed_mid.mpr (.inr (.inl rfl))

/-- Replacing one block by another of the same size, seen from any other offset. -/
theorem mem_placed_replace (hsize : d.size = b.size) (ho : o ≠ total size pre)
    {c : Block} : (o, c) ∈ placed (pre ++ d :: post) ↔ (o, c) ∈ placed (pre ++ b :: post) := by
  rw [mem_placed_mid, mem_placed_mid, hsize]
  simp [ho]

theorem freeIn_replace_other (hsize : d.size = b.size) (ho : o ≠ total size pre) :
    freeIn (pre ++ d :: post) o n ↔ freeIn (pre ++ b :: post) o n := by
  unfold freeIn
  simp only [mem_placed_replace hsize ho]

/-- What is stored at the replaced offset is the new block. -/
theorem placed_replace_self (hr : Rep h (pre ++ b :: post)) (hsize : d.size = b.size) {c : Block}
    (hc : (total size pre, c) ∈ placed (pre ++ d :: post)) : c = d := by
  have hpos := (hr.okAt (placed_mid pre post b)).lo
  rw [mem_placed_mid] at hc
  rcases hc with hc | hc | hc
  · have hb := (place_bounds hc).2
    have hc' : (total size pre, c) ∈ placed (pre ++ b :: post) := mem_placed_mid.mpr (.inl hc)
    have := (hr.okAt hc').lo
    dsimp only at hb
    omega
  · exact congrArg Prod.snd hc
  · have hb := (place_bounds hc).1
    omega

theorem freeIn_replace_self (hr : Rep h (pre ++ b :: post)) (hsize : d.size = b.size) :
    freeIn (pre ++ d :: post) (total size pre) n ↔ d.kind = .free ∧ d.size = n := by
  constructor
  · rintro ⟨c, hc, hk, hn⟩
    rw [placed_replace_self hr hsize hc] at hk hn
    exact ⟨hk, hn⟩
  · rintro ⟨hk, hn⟩
    exact ⟨d, placed_mid pre post d, hk, hn⟩

/-- Writing link words of unallocated blocks leaves every block as it is stored. -/
theorem Rep.stored_linkEdit {bs : List Block} {W : Nat → Prop} (hr : Rep h bs) (edit : LinkEdit h h' W)
    (hW : ∀ x, W x → ∃ c, (x, c) ∈ placed bs ∧ c.kind.allocated = false) : ∀ e ∈ placed bs, h'.BlockAt e.1 e.2 := by
  rintro ⟨o, b⟩ he
  have hb := hr.stored _ he
  cases ha : b.kind.allocated with
  | false =>
    have hh := edit.header (o := o) (fun w hw => by
      obtain ⟨c, hc, -⟩ := hW w hw
      exact hr.apart hc he)
    refine ⟨?_, ?_, ?_, ?_, ?_⟩
    · rw [hh.1]
      exact hb.size
    · rw [hh.2.1]
      exact hb.flags
    · rw [hh.2.2]
      exact hb.link
    · intro t m hk
      rw [hk] at ha
      cases ha
    · intro ha'
      rw [ha] at ha'
      cases ha'
  | true =>
    refine hb.congr (hr.okAt he).lo edit.format (fun i h1 h2 => edit.bytes i (fun w hw => ?_))
    obtain ⟨c, hc, hca⟩ := hW w hw
    have hlo := (hr.okAt hc).lo
    dsimp only at h1 h2
    rcases place_apart hc he with heq | hlt | hlt
    · cases heq
      rw [ha] at hca
      cases hca
    · dsimp only at hlt
      omega
    · dsimp only at hlt
      omega

/-- Between unallocated kinds the stored header is the same. -/
theorem BlockAt.setKind {k : Kind} (hb : h.BlockAt o b) (hk : b.kind ≠ .hole)
    (ha : b.kind.allocated = false) (ha' : k.allocated = false) : h.BlockAt o { b with kind := k } := by
  have hflags : b.kind.flags = 0 := by
    cases hbk : b.kind <;> simp_all [Kind.flags, Kind.allocated]
  have hflags' : k.flags = 0 := by
    cases k <;> simp_all [Kind.flags, Kind.allocated]
  refine ⟨fun _ => hb.size hk, fun _ => ?_, fun _ => hb.link hk, ?_, ?_⟩
  · rw [hb.flags hk, hflags]
    exact hflags'.symm
  · rintro t m heq
    dsimp only at heq
    rw [heq] at ha'
    cases ha'
  · intro hc
    rw [ha'] at hc
    cases hc

/-- The new block list after one block changed between unallocated kinds. -/
theorem Rep.of_setKind {k : Kind} {L : Nat → List Nat} (hr : Rep h (pre ++ b :: post))
    (hk : b.kind ≠ .hole) (ha : b.kind.allocated = false) (ha' : k.allocated = false)
    (kept : Kept h h')
    (hstored : ∀ e ∈ placed (pre ++ b :: post), h'.BlockAt e.1 e.2)
    (hl : h'.Lists (freeIn (pre ++ { b with kind := k } :: post)) L) :
    Rep h' (pre ++ { b with kind := k } :: post) := by
  refine ⟨hl.shaped, ?_, ?_, ?_, L, hl⟩
  · rw [kept.size, ← hr.tiles]
    simp
  · have hb := hr.ok b (by simp)
    exact forall_mem_replace hr.ok ⟨hb.lo, hb.aligned⟩
  · rintro ⟨o, c⟩ he
    by_cases ho : o = total size pre
    · subst ho
      rw [placed_replace_self (d := { b with kind := k }) hr rfl he]
      exact (hstored _ (placed_mid pre post b)).setKind hk ha ha'
    · exact hstored _ ((mem_placed_replace (b := b) (d := { b with kind := k }) rfl ho).mp he)

/-! ## List membership -/

theorem Rep.detach (hr : Rep h (pre ++ b :: post)) (hk : b.kind = .free) :
    ∃ h', h.removeFree (total size pre) = .ok h' ∧ Kept h h' ∧
      Rep h' (pre ++ { b with kind := .detached } :: post) ∧
      ∀ k, h.HintCovers (pre ++ b :: post) k →
        h'.HintCovers (pre ++ { b with kind := .detached } :: post) k ∨ k ≤ b.size := by
  obtain ⟨L, hl⟩ := hr.lists
  obtain ⟨h', e, edit, ⟨L', hl'⟩, hhint⟩ := removeFree_spec hl ⟨b, placed_mid pre post b, hk, rfl⟩
  have hF : ∀ o n, freeIn (pre ++ { b with kind := .detached } :: post) o n ↔
      freeIn (pre ++ b :: post) o n ∧ o ≠ total size pre := by
    intro o n
    by_cases ho : o = total size pre
    · subst ho
      rw [freeIn_replace_self (d := { b with kind := .detached }) hr rfl]
      simp
    · rw [freeIn_replace_other (b := b) (d := { b with kind := .detached }) rfl ho]
      simp [ho]
  have hstored := hr.stored_linkEdit edit (fun x ⟨n, c, hc, hck, _⟩ => ⟨c, hc, by rw [hck]; rfl⟩)
  have ha : b.kind.allocated = false := by
    rw [hk]
    rfl
  exact ⟨h', e, edit.kept, hr.of_setKind (by simp [hk]) ha rfl edit.kept hstored (hl'.congr hF),
    fun k hk => (hhint k hk).imp_left fun hc => hc.mono (fun m => (hF _ m).mpr) (Nat.le_refl k)⟩

theorem Rep.attach (hr : Rep h (pre ++ b :: post)) (hk : b.kind = .detached) :
    ∃ h', h.insertFree (total size pre) = .ok h' ∧ Kept h h' ∧
      Rep h' (pre ++ { b with kind := .free } :: post) ∧
      h'.HintCovers (pre ++ { b with kind := .free } :: post) b.size ∧
      ∀ k, h.HintCovers (pre ++ b :: post) k → h'.HintCovers (pre ++ { b with kind := .free } :: post) k := by
  obtain ⟨L, hl⟩ := hr.lists
  have he := placed_mid pre post b
  have hbs : h.BlockAt (total size pre) b := hr.stored _ he
  have hap : ∀ {o' n'}, freeIn (pre ++ b :: post) o' n' →
      o' ≠ total size pre ∧ Apart o' (total size pre) := by
    rintro o' n' ⟨c, hc, hck, -⟩
    refine ⟨fun heq => ?_, hr.apart hc he⟩
    subst heq
    rw [hr.unique hc he, hk] at hck
    cases hck
  obtain ⟨h', e, edit, ⟨L', hl'⟩, hnew, hold⟩ := insertFree_spec hl (hr.slot he)
    (hbs.size (by simp [hk])) ⟨(hr.okAt he).lo, by have := hr.le_arena he; omega⟩ hap
  have hF : ∀ o n, freeIn (pre ++ { b with kind := .free } :: post) o n ↔
      freeIn (pre ++ b :: post) o n ∨ (o = total size pre ∧ n = b.size) := by
    intro o n
    by_cases ho : o = total size pre
    · subst ho
      rw [freeIn_replace_self (d := { b with kind := .free }) hr rfl, hr.freeIn_iff he, hk]
      simp [eq_comm]
    · rw [freeIn_replace_other (b := b) (d := { b with kind := .free }) rfl ho]
      simp [ho]
  have ha : b.kind.allocated = false := by
    rw [hk]
    rfl
  have hstored := hr.stored_linkEdit edit (by
    rintro x (rfl | ⟨n, c, hc, hck, -⟩)
    · exact ⟨b, he, ha⟩
    · exact ⟨c, hc, by rw [hck]; rfl⟩)
  exact ⟨h', e, edit.kept, hr.of_setKind (by simp [hk]) ha rfl edit.kept hstored (hl'.congr hF),
    hnew.mono (fun m => (hF _ m).mpr) (Nat.le_refl _),
    fun k hk => (hold k hk).mono (fun m => (hF _ m).mpr) (Nat.le_refl k)⟩

/-! ## Header fields and payload -/

theorem payloadOffset_ge (h : Heap) : 8 ≤ h.payloadOffset := by
  unfold payloadOffset
  cases h.headerFormat <;> simp [HeaderFormat.bytes, legacyHeapHeaderBytes, blockHeaderBytes]

theorem payloadOffset_le (h : Heap) : h.payloadOffset ≤ 12 := by
  unfold payloadOffset
  cases h.headerFormat <;> simp [HeaderFormat.bytes, legacyHeapHeaderBytes, blockHeaderBytes]

variable {lo k : Nat}

theorem Frame.payloadOffset (f : Frame h h' lo k) : h'.payloadOffset = h.payloadOffset := by
  unfold Heap.payloadOffset
  rw [f.format]

/-- Payload bytes are not part of the header. -/
theorem BlockAt.bytes_frame {k : Nat} (hb : h.BlockAt o b) (f : Frame h h' o k)
    (hk : k ≤ h.payloadOffset) (ha : b.kind.allocated = true) :
    ∀ i, h'.payloadOffset ≤ i → i < b.size → h'.arena (o + i) = b.bytes i := by
  intro i h1 h2
  rw [f.payloadOffset] at h1
  rw [f.bytes _ (by omega)]
  exact hb.bytes ha i h1 h2

variable (hr : Rep h (pre ++ b :: post))

include hr

/-- One block changes in place. -/
theorem Rep.replace (frame : Frame h h' lo k) (hlo : total size pre ≤ lo) (hhi : lo + k ≤ total size pre + b.size)
    (hsize : d.size = b.size) (hok : d.Ok) (hstored : h'.BlockAt (total size pre) d)
    (hfree : d.kind = .free ↔ b.kind = .free)
    (hlinks : b.kind = .free → lo + k ≤ total size pre + 8) : Rep h' (pre ++ d :: post) := by
  have hlist : pre ++ b :: post = pre ++ [b] ++ post := by simp
  rw [hlist] at hr
  have hlist' : pre ++ d :: post = pre ++ [d] ++ post := by simp
  rw [hlist']
  refine hr.window (frame.mono hlo (by simpa using hhi)) (by simpa using hsize) ?_ ?_ ?_ ?_
  · intro c hc
    rw [mem_singleton.mp hc]
    exact hok
  · intro e he
    simp only [place_cons, place_nil, mem_singleton] at he
    rw [he]
    exact hstored
  · intro o n
    simp [hfree, hsize]
  · intro o c hc hck i h1 h2
    simp only [place_cons, place_nil, mem_singleton, Prod.mk.injEq] at hc
    obtain ⟨rfl, rfl⟩ := hc
    have := hlinks hck
    exact frame.bytes i (by omega)

theorem Rep.middle : (total size pre, b) ∈ placed (pre ++ b :: post) ∧ h.BlockAt (total size pre) b ∧ b.Ok :=
  ⟨placed_mid pre post b, hr.stored _ (placed_mid pre post b), hr.okAt (placed_mid pre post b)⟩

theorem Rep.setLink {v : Nat} (hv : h.LinkValue v) :
    ∃ h', h.writePreviousOrGray (total size pre) v = .ok h' ∧ Kept h h' ∧
      h'.largestFreeHint = h.largestFreeHint ∧ Rep h' (pre ++ { b with link := storedLink h.headerFormat v } :: post) := by
  obtain ⟨he, hb, hok⟩ := hr.middle
  have hlo := hok.lo
  obtain ⟨h', e, f, hh⟩ := writePreviousOrGray_ok (hr.slot he) hv
  refine ⟨h', e, f.kept, f.hint, hr.replace f (Nat.le_refl _) (by omega) rfl ⟨hlo, hok.aligned⟩ ?_ Iff.rfl (by omega)⟩
  refine ⟨?_, ?_, ?_, ?_, fun ha => hb.bytes_frame f (payloadOffset_ge h) ha⟩ <;> rw [hh]
  · exact hb.size
  · exact hb.flags
  · exact fun _ => rfl
  · exact hb.type

theorem Rep.setFlags {k : Kind} (ha : b.kind.allocated = true)
    (ha' : k.allocated = true) (htype : ∀ t m, k = .live t m → (h.header (total size pre)).type = t) :
    ∃ h', h.writeFlags (total size pre) k.flags = .ok h' ∧ Kept h h' ∧
      h'.largestFreeHint = h.largestFreeHint ∧ Rep h' (pre ++ { b with kind := k } :: post) := by
  obtain ⟨he, hb, hok⟩ := hr.middle
  have hlo := hok.lo
  have hhole := Kind.ne_hole ha
  obtain ⟨h', e, f, hh⟩ := writeFlags_ok (hr.slot he) k.flags_lt
  refine ⟨h', e, f.kept, f.hint, hr.replace f (Nat.le_refl _) (by omega) rfl ⟨hlo, hok.aligned⟩ ?_ ?_ (by omega)⟩
  · refine ⟨?_, ?_, ?_, ?_, fun _ => hb.bytes_frame f (payloadOffset_ge h) ha⟩ <;> rw [hh]
    · exact fun _ => hb.size hhole
    · exact fun _ => rfl
    · exact fun _ => hb.link hhole
    · exact htype
  · exact ⟨fun heq => absurd heq (Kind.ne_free ha'), fun heq => absurd heq (Kind.ne_free ha)⟩

theorem Rep.setType {t : Nat} (hk : b.kind = .reserved) (ht : t < h.headerFormat.typeLimit) (ht32 : t < 2 ^ 32) :
    ∃ h', h.writeType (total size pre) t = .ok h' ∧ Kept h h' ∧
      Rep h' (pre ++ b :: post) ∧ (h'.header (total size pre)).type = t := by
  obtain ⟨he, hb, hok⟩ := hr.middle
  have hlo := hok.lo
  have hpo := payloadOffset_le h
  unfold payloadOffset at hpo
  obtain ⟨h', e, f, hh⟩ := writeType_ok (hr.slot he) ht ht32
  refine ⟨h', e, f.kept, hr.replace f (Nat.le_refl _) (by omega) rfl hok ?_ Iff.rfl ?_, by rw [hh]⟩
  · refine ⟨?_, ?_, ?_, fun t m heq => ?_, fun ha => hb.bytes_frame f (Nat.le_refl _) ha⟩
    · rw [hh]
      exact hb.size
    · rw [hh]
      exact hb.flags
    · rw [hh]
      exact hb.link
    · rw [hk] at heq
      cases heq
  · intro hfree
    rw [hk] at hfree
    cases hfree

/-- Payload bytes of an allocated block change. -/
theorem Rep.setBytes (ha : b.kind.allocated = true)
    (frame : Frame h h' lo k) (hlo : total size pre + h.payloadOffset ≤ lo) (hhi : lo + k ≤ total size pre + b.size) :
    Rep h' (pre ++ { b with bytes := fun i => h'.arena (total size pre + i) } :: post) := by
  obtain ⟨he, hb, hok⟩ := hr.middle
  have hpo := payloadOffset_ge h
  have hhole := Kind.ne_hole ha
  have hhead := header_congr_head (o := total size pre) frame.format (fun i h1 h2 => frame.bytes i (by omega))
  refine hr.replace frame (by omega) hhi rfl ⟨hok.lo, hok.aligned⟩ ?_ Iff.rfl ?_
  · refine ⟨fun _ => hhead.1.trans (hb.size hhole), fun _ => hhead.2.1.trans (hb.flags hhole),
      fun _ => hhead.2.2.trans (hb.link hhole), fun t m heq => ?_, fun _ _ _ _ => rfl⟩
    -- the type id is in front of the payload in both formats
    rw [← hb.type t m heq]
    rcases hf : h.headerFormat with _ | ⟨sb, lb⟩
    · have h12 : h.payloadOffset = 12 := by
        unfold payloadOffset
        rw [hf]
        rfl
      rw [header_congr frame.format (fun i h1 h2 => frame.bytes i (by omega))]
    · have hw : readLE h'.arena (total size pre) 8 = readLE h.arena (total size pre) 8 :=
        readLE_congr (fun i h1 h2 => frame.bytes i (by omega))
      rw [header_compact (frame.format.trans hf), header_compact hf, hw]
  · intro hfree
    rw [hfree] at ha
    cases ha

end Middle

/-! ## Whole headers -/

theorem writeHeader_ok {h : Heap} {o size prev : Nat} (allocated : Bool) (hs : h.Slot o)
    (hlo : 16 ≤ size) (hsize : size % 8 = 0) (hsize' : size ≤ h.arenaBytes) (hprev : h.headerFormat.Tag prev) :
    ∃ h', h.writeHeader o size prev allocated = .ok h' ∧ Frame h h' o 16 ∧
      (h'.header o).size = size ∧ (h'.header o).flags = allocated.toNat ∧ (h'.header o).link = prev := by
  obtain ⟨h1, e1, f1, hh1⟩ := writeBlockHeader_ok allocated hs hsize hsize' hprev
  obtain ⟨h2, e2, f2, -⟩ := writeNext_ok (v := nullOffset) (f1.slot hs) (by decide)
  obtain ⟨h3, e3, f3, -⟩ := writePrevious_ok (v := nullOffset) (f2.slot (f1.slot hs)) (by decide)
  have hhead := header_congr_head (h := h1) (g := h3) (o := o) (f3.format.trans f2.format)
    (fun i hi1 hi2 => (f3.bytes i (by omega)).trans (f2.bytes i (by omega)))
  refine ⟨h3, ?_, ?_, ?_⟩
  · simp only [writeHeader, e1, e2, ok_bind]
    rw [if_neg (by unfold minimumBlockBytes blockAlignment; omega)]
    exact e3
  · exact ((f1.mono (by omega) (by omega)).trans (f2.mono (by omega) (by omega))).trans
      (f3.mono (by omega) (by omega))
  · rw [hhead.1, hhead.2.1, hhead.2.2, hh1]
    exact ⟨rfl, rfl, rfl⟩

section Window

variable {h h' : Heap} {pre mid mid' post : List Block} {b : Block}

/-- A range whose header is not looked at. -/
def holeOf (size : Nat) : Block := ⟨size, .hole, 0, fun _ => 0⟩

theorem blockAt_hole (h : Heap) (o n : Nat) : h.BlockAt o (holeOf n) :=
  ⟨fun hk => absurd rfl hk, fun hk => absurd rfl hk, fun hk => absurd rfl hk,
    nofun, nofun⟩

theorem holes_not_free {sizes : List Nat} {c : Block} (hc : c ∈ sizes.map holeOf) : c.kind ≠ .free := by
  obtain ⟨n, -, rfl⟩ := mem_map.mp hc
  exact nofun

theorem holeOf_ok {n : Nat} (hlo : 16 ≤ n) (ha : n % 8 = 0) : (holeOf n).Ok :=
  ⟨hlo, ha⟩

theorem Frame.refl (h : Heap) (lo n : Nat) : Frame h h lo n := ⟨rfl, fun _ _ => rfl⟩

/-- Blocks that are in no list can be forgotten, in any division into ranges. -/
theorem Rep.blur (sizes : List Nat) (hr : Rep h (pre ++ mid ++ post))
    (hfree : ∀ b ∈ mid, b.kind ≠ .free) (hsizes : ∀ n ∈ sizes, 16 ≤ n ∧ n % 8 = 0)
    (htotal : total size (sizes.map holeOf) = total size mid) : Rep h (pre ++ sizes.map holeOf ++ post) := by
  refine hr.window (Frame.refl h _ _) htotal ?_ ?_ ?_ ?_
  · intro c hc
    obtain ⟨n, hn, rfl⟩ := mem_map.mp hc
    exact holeOf_ok (hsizes n hn).1 (hsizes n hn).2
  · rintro ⟨o, c⟩ he
    obtain ⟨n, -, rfl⟩ := mem_map.mp (mem_of_mem_place he)
    exact blockAt_hole h o n
  · exact fun o n => iff_of_false (not_free_of_mem_place fun c => holes_not_free) (not_free_of_mem_place hfree)
  · intro o c hc hk
    exact absurd hk (hfree c (mem_of_mem_place hc))

theorem total_map_holeOf (l : List Block) : total size ((l.map size).map holeOf) = total size l := by
  induction l with
  | nil => rfl
  | cons _ _ ih => simp only [map_cons, total_cons, ih, holeOf]

/-- Writing into a hole changes no block. -/
theorem Rep.scribble {lo k : Nat} (hr : Rep h (pre ++ b :: post)) (hk : b.kind = .hole)
    (frame : Frame h h' lo k) (hlo : total size pre ≤ lo)
    (hhi : lo + k ≤ total size pre + b.size) : Rep h' (pre ++ b :: post) := by
  refine hr.replace frame hlo hhi rfl (hr.ok b (by simp)) ?_ Iff.rfl (fun hf => by simp [hk] at hf)
  refine ⟨fun h1 => absurd hk h1, fun h1 => absurd hk h1, fun h1 => absurd hk h1, ?_, ?_⟩
  · intro t m heq
    rw [hk] at heq
    cases heq
  · intro ha
    rw [hk] at ha
    cases ha

/-- The kind of a block whose header was just written. -/
def freshKind (allocated : Bool) : Kind := if allocated then .reserved else .detached

/-- Blocks that are in no list become one block with a new header. -/
theorem Rep.writeHeader (prev : Nat) (allocated : Bool) (hr : Rep h (pre ++ mid ++ post))
    (hne : mid ≠ []) (hfree : ∀ b ∈ mid, b.kind ≠ .free) (hprev : h.headerFormat.Tag prev) :
    ∃ h' bytes, h.writeHeader (total size pre) (total size mid) prev allocated = .ok h' ∧
      Kept h h' ∧ h'.largestFreeHint = h.largestFreeHint ∧
      Rep h' (pre ++ ⟨total size mid, freshKind allocated, prev, bytes⟩ :: post) := by
  obtain ⟨b, mid, rfl⟩ := exists_cons_of_ne_nil hne
  have he : (total size pre, b) ∈ placed (pre ++ (b :: mid) ++ post) := by
    rw [append_assoc]
    exact placed_mid pre (mid ++ post) b
  have hslot := hr.slot he
  have hlo := (hr.okAt he).lo
  have haligned : total size (b :: mid) % 8 = 0 := dvd_total (fun c hc =>
    (hr.ok c (mem_append_left _ (mem_append_right _ hc))).aligned)
  have hle : total size (b :: mid) ≤ h.arenaBytes := by
    rw [← hr.tiles]
    simp
    omega
  have hlo' : 16 ≤ total size (b :: mid) := by
    rw [total_cons]
    omega
  obtain ⟨h', e, f, hsize, hflags, hlink⟩ :=
    writeHeader_ok allocated hslot hlo' haligned hle hprev
  have hk : (freshKind allocated).flags = allocated.toNat ∧ freshKind allocated ≠ .free ∧
      ∀ t m, freshKind allocated ≠ .live t m := by
    cases allocated <;> simp [freshKind, Kind.flags, ALLOCATED]
  refine ⟨h', fun i => h'.arena (total size pre + i), e, f.kept, f.hint, ?_⟩
  have hlist : ∀ c : Block, pre ++ c :: post = pre ++ [c] ++ post := by simp
  rw [hlist]
  refine hr.window (f.mono (Nat.le_refl _) (by omega)) (by simp) ?_ ?_ ?_ ?_
  · intro c hc
    rw [mem_singleton.mp hc]
    exact ⟨hlo', haligned⟩
  · intro e he
    simp only [place_cons, place_nil, mem_singleton] at he
    rw [he]
    exact ⟨fun _ => hsize, fun _ => hflags.trans hk.1.symm, fun _ => hlink,
      fun t m heq => absurd heq (hk.2.2 t m), fun _ _ _ _ => rfl⟩
  · exact fun o n => iff_of_false (not_free_of_mem_place (by simpa using hk.2.1)) (not_free_of_mem_place hfree)
  · intro o c hc hck
    exact absurd hck (hfree c (mem_of_mem_place hc))

end Window

end Compukter.Heap
