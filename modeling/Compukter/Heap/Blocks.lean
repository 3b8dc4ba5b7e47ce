/-
The heap as a list of blocks.

This is the abstract heap: a list of blocks that tiles the arena.  A `Block` has its size, what it is used
for, the value of its link field and its payload bytes.  Two kinds exist only while an operation is under
way: a DETACHED block has a free header but is in no list, and a HOLE is a range of bytes whose header is
about to be written.

`Rep h bs` relates the two levels.  `Rep.window` is the rule that all operations use: bytes change inside
one window, the blocks of the window are replaced, and everything around it stays.
-/
import Compukter.Heap.FreeLists
import Compukter.Lib.Tiling

namespace Compukter

open Bytes Fallible Tiling

/-- What a block is used for. -/
inductive Kind where
  | free | detached | hole | reserved
  | live (type : Nat) (marked : Bool)
  deriving DecidableEq

namespace Kind

/-- The flag bits of a block header. -/
def flags : Kind → Nat
  | free | detached | hole => 0
  | reserved => ALLOCATED
  | live _ false => ALLOCATED ||| LIVE
  | live _ true => ALLOCATED ||| LIVE ||| MARKED

def allocated : Kind → Bool
  | free | detached | hole => false
  | reserved | live _ _ => true

theorem flags_lt (k : Kind) : k.flags < 8 := by
  rcases k with _ | _ | _ | _ | ⟨t, _ | _⟩ <;> simp [flags, ALLOCATED, LIVE, MARKED]

theorem flags_and_allocated (k : Kind) : decide (k.flags &&& ALLOCATED ≠ 0) = k.allocated := by
  rcases k with _ | _ | _ | _ | ⟨t, _ | _⟩ <;> simp [flags, allocated, ALLOCATED, LIVE, MARKED]

theorem ne_free {k : Kind} (h : k.allocated = true) : k ≠ free := by
  rintro rfl
  cases h

theorem ne_hole {k : Kind} (h : k.allocated = true) : k ≠ hole := by
  rintro rfl
  cases h

end Kind

structure Block where
  size : Nat
  kind : Kind
  link : Nat
  bytes : Nat → UInt8

/-- A block that a header can describe. -/
structure Block.Ok (b : Block) : Prop where
  lo : 16 ≤ b.size
  aligned : b.size % 8 = 0

open Block (size)

namespace Heap

/-- The arena stores block `b` at offset `o`. -/
structure BlockAt (h : Heap) (o : Nat) (b : Block) : Prop where
  size : b.kind ≠ .hole → (h.header o).size = b.size
  flags : b.kind ≠ .hole → (h.header o).flags = b.kind.flags
  link : b.kind ≠ .hole → (h.header o).link = b.link
  type : ∀ t m, b.kind = .live t m → (h.header o).type = t
  bytes : b.kind.allocated = true → ∀ i, h.payloadOffset ≤ i → i < b.size → h.arena (o + i) = b.bytes i

/-- The blocks with their offsets. -/
abbrev placed (bs : List Block) : List (Nat × Block) := place size 0 bs

/-- The listed free blocks: offset and size. -/
def freeIn (bs : List Block) (o n : Nat) : Prop :=
  ∃ b, (o, b) ∈ placed bs ∧ b.kind = .free ∧ b.size = n

/-- The hint of `h` names a free block of at least `n` bytes. -/
abbrev HintCovers (h : Heap) (bs : List Block) (n : Nat) : Prop :=
  Covers (freeIn bs) h.largestFreeHint n

structure Rep (h : Heap) (bs : List Block) : Prop where
  shaped : h.Shaped
  tiles : total size bs = h.arenaBytes
  ok : ∀ b ∈ bs, b.Ok
  stored : ∀ e ∈ placed bs, h.BlockAt e.1 e.2
  lists : ∃ L, h.Lists (freeIn bs) L

variable {h h' : Heap}

/-- Only bytes of the block matter for how it is stored. -/
theorem BlockAt.congr {o : Nat} {b : Block} (hb : h.BlockAt o b) (hlo : 16 ≤ b.size)
    (hf : h'.headerFormat = h.headerFormat)
    (hbytes : ∀ i, o ≤ i → i < o + b.size → h'.arena i = h.arena i) : h'.BlockAt o b := by
  have hh : h'.header o = h.header o :=
    header_congr hf (fun i h1 h2 => hbytes i h1 (by omega))
  refine ⟨?_, ?_, ?_, ?_, ?_⟩
  · rw [hh]
    exact hb.size
  · rw [hh]
    exact hb.flags
  · rw [hh]
    exact hb.link
  · rw [hh]
    exact hb.type
  · intro ha i h1 h2
    have hpo : h'.payloadOffset = h.payloadOffset := by
      unfold payloadOffset
      rw [hf]
    rw [hbytes (o + i) (by omega) (by omega)]
    exact hb.bytes ha i (hpo ▸ h1) h2

namespace Rep

variable {h : Heap} {bs : List Block} {o : Nat} {b : Block}

variable (hr : Rep h bs)
include hr

theorem size_pos : ∀ b ∈ bs, 0 < b.size := fun b hb => by
  have := (hr.ok b hb).lo
  omega

theorem small : h.arenaBytes < 2 ^ 30 := hr.shaped.lt

variable (he : (o, b) ∈ placed bs)
include he

theorem okAt : b.Ok := hr.ok b (mem_of_mem_place he)

theorem le_arena : o + b.size ≤ h.arenaBytes := by
  have := (place_bounds he).2
  rw [hr.tiles, Nat.zero_add] at this
  exact this

theorem slot : h.Slot o := by
  have hle := hr.le_arena he
  have hlo := (hr.okAt he).lo
  refine ⟨hr.shaped, ?_, by omega⟩
  obtain ⟨pre, _, hsplit, heq⟩ := mem_place.mp he
  have : total size pre % 8 = 0 := dvd_total (fun c hc =>
    (hr.ok c (by rw [hsplit]; simp [hc])).aligned)
  omega

section

variable (hk : b.kind ≠ .hole)
include hk

theorem blockSize : h.blockSize o = .ok b.size := by
  have hsize : (h.header o).size = b.size := (hr.stored _ he).size hk
  have hle := hr.le_arena he
  have hlo := (hr.okAt he).lo
  have hsmall := hr.small
  rw [blockSize_ok (hr.slot he) (by rw [hsize]; exact hlo) (by rw [hsize]; omega), hsize]

theorem readFlags : h.readFlags o = .ok b.kind.flags := by
  rw [readFlags_ok (hr.slot he), (hr.stored _ he).flags hk]

theorem blockAllocated : h.blockAllocated o = .ok b.kind.allocated := by
  rw [blockAllocated_ok (hr.slot he), (hr.stored _ he).flags hk, Kind.flags_and_allocated]

theorem readPreviousOrGray : h.readPreviousOrGray o = .ok b.link := by
  rw [readPreviousOrGray_ok (hr.slot he), (hr.stored _ he).link hk]

/-- A stored tag can be stored again. -/
theorem tag : h.headerFormat.Tag b.link := by
  rw [← (hr.stored _ he).link hk]
  exact header_link_tag h o

end

theorem readType {t : Nat} {m : Bool} (hk : b.kind = .live t m) (ht : t < 2 ^ 32) : h.readType o = .ok t := by
  have htype := (hr.stored _ he).type t m hk
  rw [readType_ok (hr.slot he) (htype ▸ ht), htype]

/-- Two placed blocks at different offsets keep the distance of a minimal block. -/
theorem apart {o' : Nat} {b' : Block} (he' : (o', b') ∈ placed bs) : Apart o o' := by
  have h1 := (hr.okAt he).lo
  have h2 := (hr.okAt he').lo
  unfold Apart
  rcases place_apart he he' with heq | hlt | hlt
  · exact .inl (congrArg Prod.fst heq)
  · dsimp only at hlt
    omega
  · dsimp only at hlt
    omega

theorem unique {b' : Block} (he' : (o, b') ∈ placed bs) : b = b' :=
  congrArg Prod.snd (place_unique he he' hr.size_pos rfl)

theorem freeIn_iff {n : Nat} : freeIn bs o n ↔ b.kind = .free ∧ b.size = n := by
  constructor
  · rintro ⟨b', he', hk, hn⟩
    rw [hr.unique he he']
    exact ⟨hk, hn⟩
  · rintro ⟨hk, hn⟩
    exact ⟨b, he, hk, hn⟩

end Rep

/-! ## Local edits -/

/-- The lists stay when the headers' sizes and the link words of the listed blocks do. -/
theorem Lists.transport {F : Nat → Nat → Prop} {L : Nat → List Nat} (hl : Lists h F L) (same : h' = h.setArena h'.arena)
    (hsize : ∀ o n, F o n → (h'.header o).size = (h.header o).size)
    (hlink : ∀ o n, F o n → ∀ i, o + 8 ≤ i → i < o + 16 → h'.arena i = h.arena i) : Lists h' F L := by
  have hshape : h'.Shaped := by
    rw [same]
    exact ⟨hl.shaped.units, hl.shaped.small, hl.shaped.fits⟩
  have hbytes : h'.arenaBytes = h.arenaBytes := by
    rw [same]
    rfl
  have hnext : ∀ o n, F o n → h'.nextFree o = h.nextFree o := fun o n ho =>
    readLE_congr (fun i h1 h2 => hlink o n ho i h1 (by omega))
  have hprev : ∀ o n, F o n → h'.previousFree o = h.previousFree o := fun o n ho =>
    readLE_congr (fun i h1 h2 => hlink o n ho i (by omega) (by omega))
  refine ⟨hshape, ?_, ?_, ?_, hl.apart, hl.mem, hl.nodup, ?_, ?_, ?_, ?_⟩
  · intro o n ho
    refine ⟨hshape, (hl.slot ho).aligned, ?_⟩
    rw [hbytes]
    exact (hl.slot ho).room
  · intro o n ho
    rw [hsize o n ho]
    exact hl.size ho
  · rw [hbytes]
    exact hl.bounds
  · rw [same]
    exact hl.head
  · intro c
    refine (hl.linked c).congr (fun x hx => ?_) (fun x hx => ?_)
    · obtain ⟨n, hn, -⟩ := hl.mem.mp hx
      exact hnext x n hn
    · obtain ⟨n, hn, -⟩ := hl.mem.mp hx
      exact hprev x n hn
  · rw [same]
    exact hl.bitmaps
  · rw [same]
    exact hl.hint

theorem freeIn_append {pre mid post : List Block} {o n : Nat} :
    freeIn (pre ++ mid ++ post) o n ↔ (∃ b, (o, b) ∈ placed pre ∧ b.kind = .free ∧ b.size = n) ∨
      (∃ b, (o, b) ∈ place size (total size pre) mid ∧ b.kind = .free ∧ b.size = n) ∨
      (∃ b, (o, b) ∈ place size (total size pre + total size mid) post ∧
        b.kind = .free ∧ b.size = n) := by
  unfold freeIn placed
  simp only [place_append, total_append, List.mem_append, Nat.zero_add, or_assoc, or_and_right, exists_or]

/-- Blocks that are not free are in no list. -/
theorem not_free_of_mem_place {mid : List Block} {x o n : Nat} (hfree : ∀ b ∈ mid, b.kind ≠ .free) :
    ¬ ∃ b, (o, b) ∈ place size x mid ∧ b.kind = .free ∧ b.size = n := by
  rintro ⟨b, hb, hk, -⟩
  exact hfree b (mem_of_mem_place hb) hk

/-- **Local edits.** Bytes change inside the window of `mid` only, whose blocks are replaced by
`mid'`; listed blocks of the window keep offset, size and links. -/
theorem Rep.window {pre mid mid' post : List Block} (hr : Rep h (pre ++ mid ++ post))
    (frame : Frame h h' (total size pre) (total size mid))
    (htotal : total size mid' = total size mid) (hok : ∀ b ∈ mid', b.Ok)
    (hstored : ∀ e ∈ place size (total size pre) mid', h'.BlockAt e.1 e.2)
    (hfree : ∀ o n, (∃ b, (o, b) ∈ place size (total size pre) mid' ∧ b.kind = .free ∧ b.size = n) ↔
      ∃ b, (o, b) ∈ place size (total size pre) mid ∧ b.kind = .free ∧ b.size = n)
    (hlinks : ∀ o b, (o, b) ∈ place size (total size pre) mid → b.kind = .free →
      ∀ i, o + 8 ≤ i → i < o + 16 → h'.arena i = h.arena i) : Rep h' (pre ++ mid' ++ post) := by
  have hbytes : h'.arenaBytes = h.arenaBytes := by
    rw [frame.same]
    rfl
  have hokold := hr.ok
  have hmem : ∀ e, e ∈ placed (pre ++ mid ++ post) ↔ e ∈ placed pre ∨
      e ∈ place size (total size pre) mid ∨
      e ∈ place size (total size pre + total size mid) post := fun e => by
    simp
  -- outside the window nothing about a block changes
  have hout : ∀ e, e ∈ placed pre ∨ e ∈ place size (total size pre + total size mid) post →
      h.BlockAt e.1 e.2 ∧ h'.BlockAt e.1 e.2 ∧ ∀ i, e.1 + 8 ≤ i → i < e.1 + 16 → h'.arena i = h.arena i := by
    intro e he
    have hin : e ∈ placed (pre ++ mid ++ post) := (hmem e).mpr (by tauto)
    have hlo := (hr.okAt hin).lo
    have hold := hr.stored e hin
    have hsame : ∀ i, e.1 ≤ i → i < e.1 + e.2.size → h'.arena i = h.arena i := by
      intro i h1 h2
      apply frame.bytes
      rcases he with he | he
      · have := (place_bounds he).2
        omega
      · have := (place_bounds he).1
        omega
    exact ⟨hold, hold.congr hlo frame.format hsame, fun i h1 h2 => hsame i (by omega) (by omega)⟩
  obtain ⟨L, hl⟩ := hr.lists
  refine ⟨frame.shaped hr.shaped, ?_, ?_, ?_, L, ?_⟩
  · rw [hbytes, ← hr.tiles]
    simp [htotal]
  · intro b hb
    rw [List.mem_append, List.mem_append] at hb
    rcases hb with (hb | hb) | hb
    · exact hokold b (by simp [hb])
    · exact hok b hb
    · exact hokold b (by simp [hb])
  · intro e he
    simp only [place_append, total_append, List.mem_append, Nat.zero_add, htotal] at he
    rcases he with (he | he) | he
    · exact (hout e (.inl he)).2.1
    · exact hstored e he
    · exact (hout e (.inr he)).2.1
  · have hF : ∀ o n, freeIn (pre ++ mid' ++ post) o n ↔ freeIn (pre ++ mid ++ post) o n := by
      intro o n
      rw [freeIn_append, freeIn_append, hfree, htotal]
    -- a listed block lies outside the window, or keeps its size and links inside it
    refine (hl.transport frame.same ?_ ?_).congr hF
    · rintro o n hF'
      rcases freeIn_append.mp hF' with ⟨b, hb, hk, -⟩ | hmid | ⟨b, hb, hk, -⟩
      · obtain ⟨hold, hnew, -⟩ := hout _ (.inl hb)
        rw [hnew.size (by simp [hk]), hold.size (by simp [hk])]
      · obtain ⟨b', hb', hk', hn'⟩ := (hfree o n).mpr hmid
        obtain ⟨b, hb, hk, hn⟩ := hmid
        have hin : (o, b) ∈ placed (pre ++ mid ++ post) := (hmem _).mpr (.inr (.inl hb))
        rw [(hstored _ hb').size (by simp [hk']), (hr.stored _ hin).size (by simp [hk])]
        exact hn'.trans hn.symm
      · obtain ⟨hold, hnew, -⟩ := hout _ (.inr hb)
        rw [hnew.size (by simp [hk]), hold.size (by simp [hk])]
    · rintro o n hF' i h1 h2
      rcases freeIn_append.mp hF' with ⟨b, hb, hk, -⟩ | ⟨b, hb, hk, -⟩ | ⟨b, hb, hk, -⟩
      · exact (hout _ (.inl hb)).2.2 i h1 h2
      · exact hlinks o b hb hk i h1 h2
      · exact (hout _ (.inr hb)).2.2 i h1 h2

end Heap

end Compukter
