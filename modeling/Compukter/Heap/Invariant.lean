/-
The invariant of the heap between operations.

`WellFormed h bs`: the blocks of `bs` tile the arena of `h` and are stored there (`Rep`), no block
is half-way through an operation, every boundary tag is the size of the block before it, no two
neighbours are both free, no block is marked, and the two counters count.

`View bs o k n f` looks at one block without its boundary tag.  Operations move tags around, so
"the other objects are untouched" is said with views.
-/
import Compukter.Heap.Refinement
import Mathlib.Data.List.Chain

namespace Compukter.Heap

open Bytes Bits Fallible Tiling List
open Block (size)

/-- The bytes that free blocks cover. -/
def freeBytes (bs : List Block) : Nat := total (fun b => if b.kind = .free then b.size else 0) bs

def isLive (b : Block) : Bool :=
  match b.kind with
  | .live _ _ => true
  | _ => false

/-- The number of live objects. -/
def liveCount (bs : List Block) : Nat := bs.countP isLive

/-- Not both free. -/
def NotBothFree (a b : Block) : Prop := ¬ (a.kind = .free ∧ b.kind = .free)

/-- An object of this kind has no mark, and its type id is a 32-bit word. -/
def Clean (k : Kind) : Prop := ∀ t m, k = .live t m → m = false ∧ t < 2 ^ 32

/-! ### What every operation keeps

A restored heap may have neighbours that were never merged, marks that no collection left behind, types that
no reader accepts and any number in the tag of the first block, which has no predecessor.  The operations work
on it all the same; only a release looks at the other boundary tags.  The lemmas on operations are about
`Sound g`, where the grade `g` says what is known besides. -/

/-- Whether the tags after the first block are right, and whether the heap was never restored. -/
structure Grade where
  (tagged strict : Prop)
  tagged_of_strict : strict → tagged

/-- Every block is at rest, and the grade holds. -/
structure Tidy (g : Grade) (bs : List Block) : Prop where
  settled : ∀ b ∈ bs, Settled b
  tagged : g.tagged → ∃ first, (g.strict → first = 0) ∧ Tagged size Block.link first bs
  coalesced : g.strict → bs.IsChain NotBothFree

structure Sound (g : Grade) (h : Heap) (bs : List Block) : Prop where
  rep : Rep h bs
  tidy : Tidy g bs
  clean : g.strict → ∀ b ∈ bs, Clean b.kind
  totalFree : h.totalFree = freeBytes bs
  liveObjects : h.liveObjects = liveCount bs

/-- The invariant of a heap that was never restored. -/
abbrev WellFormed (h : Heap) (bs : List Block) : Prop := Sound ⟨True, True, id⟩ h bs

variable {g : Grade} {bs l : List Block} {h : Heap}

theorem Sound.unmarked (hw : WellFormed h bs) : ∀ b ∈ bs, ∀ t, b.kind ≠ .live t true := by
  intro b hb t hk
  cases (hw.clean trivial b hb t true hk).1

theorem Tidy.tagged_zero (ht : Tidy g bs) (hstrict : g.strict) : Tagged size Block.link 0 bs := by
  obtain ⟨_, hfirst, htag⟩ := ht.tagged (g.tagged_of_strict hstrict)
  exact hfirst hstrict ▸ htag

/-- The block at `o`, apart from its boundary tag. -/
def View (bs : List Block) (o : Nat) (k : Kind) (n : Nat) (f : Nat → UInt8) : Prop :=
  ∃ v, (o, Block.mk n k v f) ∈ placed bs

variable {b : Block}

theorem view_of_mem {o : Nat} (he : (o, b) ∈ placed bs) : View bs o b.kind b.size b.bytes := ⟨b.link, he⟩

/-! ## Counting -/

@[simp] theorem freeBytes_append (l l' : List Block) :
    freeBytes (l ++ l') = freeBytes l + freeBytes l' := total_append l l'

@[simp] theorem freeBytes_cons (b : Block) (l : List Block) :
    freeBytes (b :: l) = (if b.kind = .free then b.size else 0) + freeBytes l := rfl

@[simp] theorem freeBytes_nil : freeBytes [] = 0 := rfl

@[simp] theorem liveCount_append (l l' : List Block) :
    liveCount (l ++ l') = liveCount l + liveCount l' := countP_append

@[simp] theorem liveCount_cons (b : Block) (l : List Block) :
    liveCount (b :: l) = liveCount l + (if isLive b then 1 else 0) := countP_cons

@[simp] theorem liveCount_nil : liveCount [] = 0 := rfl

@[simp] theorem freeBytes_tagHead (v : Nat) (l : List Block) : freeBytes (tagHead v l) = freeBytes l := by
  cases l <;> simp [tagHead]

@[simp] theorem liveCount_tagHead (v : Nat) (l : List Block) : liveCount (tagHead v l) = liveCount l := by
  cases l with
  | nil => rfl
  | cons =>
    rfl

theorem freeBytes_le_total (bs : List Block) : freeBytes bs ≤ total size bs := by
  induction bs with
  | nil => simp
  | cons =>
    rw [freeBytes_cons, total_cons]
    split <;> omega

variable {pre post : List Block}

/-- The free bytes still fit a word when a block is released. -/
theorem Rep.freeBytes_lt (hr : Rep h (pre ++ b :: post))
    (hk : b.kind ≠ .free) : freeBytes (pre ++ b :: post) + b.size < 2 ^ 32 := by
  have hpre := freeBytes_le_total pre
  have hpost := freeBytes_le_total post
  have htotal := hr.total_mid
  have hsmall := hr.small
  simp only [freeBytes_append, freeBytes_cons, if_neg hk]
  omega

/-- Every live object takes at least a minimal block. -/
theorem liveCount_le (hok : ∀ b ∈ bs, b.Ok) : 16 * liveCount bs + freeBytes bs ≤ total size bs := by
  induction bs with
  | nil => simp
  | cons b _ ih =>
    have h1 := ih (fun c hc => hok c (mem_cons_of_mem _ hc))
    have h2 := (hok b (by simp)).lo
    rcases hk : b.kind with _ | _ | _ | _ | ⟨t, m⟩ <;> simp [isLive, hk] <;> omega

/-! ## Tags and views of a list with a new first tag -/

theorem length_tagHead (v : Nat) (l : List Block) : (tagHead v l).length = l.length := by
  cases l <;> rfl

variable {v : Nat}

theorem tagged_tagHead {p : Nat} (h : Tagged size Block.link p l) : Tagged size Block.link v (tagHead v l) := by
  cases l with
  | nil => exact trivial
  | cons => exact ⟨rfl, h.2⟩

theorem forall_mem_tagHead {P : Kind → Prop} (h : ∀ c ∈ l, P c.kind) : ∀ c ∈ tagHead v l, P c.kind := by
  cases l with
  | nil => exact h
  | cons => exact forall_mem_cons.mpr (forall_mem_cons.mp h)

theorem head?_tagHead {c : Block} (h : c ∈ (tagHead v l).head?) : ∃ d ∈ l.head?, c.kind = d.kind := by
  cases l with
  | nil => cases h
  | cons d =>
    simp only [tagHead, head?_cons, Option.mem_some_iff] at h
    exact ⟨d, by simp, by rw [← h]⟩

theorem chain_tagHead (h : l.IsChain NotBothFree) : (tagHead v l).IsChain NotBothFree := by
  match l, h with
  | [], _ => exact .nil
  | [c], _ => exact .singleton _
  | c :: d :: ds, h =>
    rw [isChain_cons_cons] at h
    exact isChain_cons_cons.mpr h

theorem chain_replace {d : Block} (hc : (pre ++ b :: post).IsChain NotBothFree)
    (hfree : d.kind = .free → b.kind = .free) : (pre ++ d :: post).IsChain NotBothFree := by
  rw [isChain_append, isChain_cons] at hc ⊢
  refine ⟨hc.1, ⟨fun q hq hboth => hc.2.1.1 q hq ⟨hfree hboth.1, hboth.2⟩, hc.2.1.2⟩, fun p hp q hq hboth => ?_⟩
  cases hq
  exact hc.2.2 p hp b rfl ⟨hboth.1, hfree hboth.2⟩

/-- A block list without its boundary tags. -/
theorem view_place_tagHead {o x : Nat} {k : Kind} {n : Nat} {f : Nat → UInt8} :
    (∃ w, (o, Block.mk n k w f) ∈ place size x (tagHead v l)) ↔ ∃ w, (o, Block.mk n k w f) ∈ place size x l := by
  cases l with
  | nil => simp [tagHead]
  | cons c =>
    simp only [tagHead, place_cons, mem_cons]
    constructor
    · rintro ⟨w, heq | hw⟩
      · cases heq
        exact ⟨c.link, .inl rfl⟩
      · exact ⟨w, .inr hw⟩
    · rintro ⟨w, heq | hw⟩
      · cases heq
        exact ⟨v, .inl rfl⟩
      · exact ⟨w, .inr hw⟩

/-! ## The block list after a release -/

section Released

variable {pre pre' lead post post' trail : List Block} {b : Block} {bytes : Nat → UInt8}

/-- The list that a release of `b` leaves. -/
def released (pre' lead : List Block) (b : Block) (trail post' : List Block) (bytes : Nat → UInt8) : List Block :=
  pre' ++ ⟨total size (lead ++ b :: trail), .free, (lead.headD b).link, bytes⟩ ::
    tagHead (total size (lead ++ b :: trail)) post'

section Left

variable (hl : AbsorbsLeft v pre pre' lead)
include hl

theorem AbsorbsLeft.last_not_free (hv : v = lastSize size 0 pre) (hc : pre.IsChain NotBothFree) :
    ∀ p ∈ pre'.getLast?, p.kind ≠ .free := by
  rcases hl with ⟨rfl, -, h⟩ | ⟨p, rfl, hp, -⟩
  · exact h hv
  · intro q hq hk
    rw [isChain_append] at hc
    exact hc.2.2 q hq p (by simp) ⟨hk, hp⟩

theorem AbsorbsLeft.mem {c : Block} (hc : c ∈ pre') : c ∈ pre := by
  rcases hl with ⟨rfl, -⟩ | ⟨p, rfl, -⟩
  · exact hc
  · simp [hc]

theorem AbsorbsLeft.mem_placed {e : Nat × Block} (he : e.2.kind ≠ .free) : e ∈ placed pre' ↔ e ∈ placed pre := by
  rcases hl with ⟨rfl, -⟩ | ⟨p, rfl, hp, -⟩
  · rfl
  · rw [placed, placed, place_append, mem_append]
    refine ⟨.inl, fun hmem => hmem.resolve_right fun hlast => he ?_⟩
    rw [mem_singleton.mp hlast]
    exact hp

theorem AbsorbsLeft.chain (hc : pre.IsChain NotBothFree) : pre'.IsChain NotBothFree := by
  rcases hl with ⟨rfl, -⟩ | ⟨p, rfl, -⟩
  · exact hc
  · exact (isChain_append.mp hc).1

theorem AbsorbsLeft.tagged {p : Nat} (h : Tagged size Block.link p pre) : Tagged size Block.link p pre' := by
  rcases hl with ⟨rfl, -⟩ | ⟨q, rfl, -⟩
  · exact h
  · exact (tagged_append.mp h).1

end Left

variable (hr : AbsorbsRight post post' trail)
include hr

theorem AbsorbsRight.head_not_free (hc : post.IsChain NotBothFree) : ∀ q ∈ post'.head?, q.kind ≠ .free := by
  rcases hr with ⟨rfl, -, h⟩ | ⟨p, rfl, hp, -⟩
  · exact h
  · intro q hq hk
    rw [isChain_cons] at hc
    exact hc.1 q hq ⟨hp, hk⟩

theorem AbsorbsRight.mem {c : Block} (hc : c ∈ post') : c ∈ post := by
  rcases hr with ⟨rfl, -⟩ | ⟨p, rfl, -⟩
  · exact hc
  · simp [hc]

theorem AbsorbsRight.mem_place {x : Nat} {e : Nat × Block} (he : e.2.kind ≠ .free) :
    e ∈ place size (x + total size trail) post' ↔ e ∈ place size x post := by
  rcases hr with ⟨rfl, rfl, -⟩ | ⟨q, rfl, hq, rfl⟩
  · simp
  · rw [place_cons, mem_cons, or_iff_right]
    · simp
    · rintro rfl
      exact he hq

theorem AbsorbsRight.chain (hc : post.IsChain NotBothFree) : post'.IsChain NotBothFree := by
  rcases hr with ⟨rfl, -⟩ | ⟨p, rfl, -⟩
  · exact hc
  · exact (isChain_cons.mp hc).2

theorem AbsorbsRight.tagged {p : Nat} (h : Tagged size Block.link p post) : ∃ p', Tagged size Block.link p' post' := by
  rcases hr with ⟨rfl, -⟩ | ⟨q, rfl, -⟩
  · exact ⟨p, h⟩
  · exact ⟨q.size, h.2⟩

variable (hl : AbsorbsLeft v pre pre' lead)
include hl

/-- What holds of the kinds around the released block holds of those that are left. -/
theorem forall_mem_released {P : Kind → Prop} (h : ∀ c ∈ pre ++ post, P c.kind) (hfree : P .free) :
    ∀ c ∈ released pre' lead b trail post' bytes, P c.kind := by
  rw [forall_mem_append] at h
  rw [released, forall_mem_append, forall_mem_cons]
  exact ⟨fun c hc => h.1 c (hl.mem hc), hfree, forall_mem_tagHead fun c hc => h.2 c (hr.mem hc)⟩

theorem released_coalesced (hv : v = lastSize size 0 pre) (hpre : pre.IsChain NotBothFree)
    (hpost : post.IsChain NotBothFree) : (released pre' lead b trail post' bytes).IsChain NotBothFree := by
  rw [released, isChain_append]
  refine ⟨hl.chain hpre, ?_, ?_⟩
  · rw [isChain_cons]
    refine ⟨?_, chain_tagHead (hr.chain hpost)⟩
    intro q hq hboth
    obtain ⟨d, hd, hk⟩ := head?_tagHead hq
    exact hr.head_not_free hpost d hd (hk ▸ hboth.2)
  · intro p hp q _ hboth
    exact hl.last_not_free hv hpre p hp hboth.1

theorem released_freeBytes (hb : b.kind.allocated = true) :
    freeBytes (released pre' lead b trail post' bytes) = freeBytes (pre ++ b :: post) + b.size := by
  have hbk := Kind.ne_free hb
  rcases hl with ⟨rfl, rfl, -⟩ | ⟨p, rfl, hp, rfl⟩ <;>
    rcases hr with ⟨rfl, rfl, -⟩ | ⟨q, rfl, hq, rfl⟩ <;>
      simp [released, *] <;> omega

theorem released_liveCount (b : Block) (bytes : Nat → UInt8) :
    liveCount (released pre' lead b trail post' bytes) + (if isLive b then 1 else 0) =
      liveCount (pre ++ b :: post) := by
  rcases hl with ⟨rfl, rfl, -⟩ | ⟨p, rfl, hp, rfl⟩ <;>
    rcases hr with ⟨rfl, rfl, -⟩ | ⟨q, rfl, hq, rfl⟩ <;>
      simp only [released, liveCount_append, liveCount_cons, liveCount_tagHead, liveCount_nil] <;>
      simp [isLive, *] <;> omega

/-- Allocated blocks other than the released one are seen as before. -/
theorem released_view (hpos : ∀ c ∈ pre ++ b :: post, 0 < c.size)
    {o : Nat} {k : Kind} {n : Nat} {f : Nat → UInt8} (hk : k.allocated = true) :
    View (released pre' lead b trail post' bytes) o k n f ↔ View (pre ++ b :: post) o k n f ∧ o ≠ total size pre := by
  have hkf := Kind.ne_free hk
  have hsum : total size pre' + total size (lead ++ b :: trail) = total size pre + b.size + total size trail := by
    rw [hl.lead_kind.2]
    simp [Nat.add_assoc]
  have hnew : View (released pre' lead b trail post' bytes) o k n f ↔
      (∃ v, (o, Block.mk n k v f) ∈ placed pre') ∨ ∃ v, (o, Block.mk n k v f) ∈ place size
        (total size pre' + total size (lead ++ b :: trail)) post' := by
    unfold View released
    simp only [mem_placed_mid, exists_or, view_place_tagHead]
    refine or_congr_right (or_iff_right ?_)
    rintro ⟨v, hv⟩
    simp only [Prod.mk.injEq, Block.mk.injEq] at hv
    exact hkf hv.2.2.1
  rw [hnew, hsum, ← exists_or, View, ← exists_and_right]
  exact exists_congr fun v => by rw [hl.mem_placed hkf, hr.mem_place hkf, ← placed_elsewhere hpos]

end Released

/-! ## The invariant as the code reads it -/

/-- What the readers of the code say about a sound heap.  `bs` are the blocks from offset 0 on and
`lists` the offsets of each free list, front to back. -/
structure Structural (h : Heap) (bs : List Block) (lists : Nat → List Nat) : Prop where
  tiles : total size bs = h.arenaBytes
  sizes : ∀ b ∈ bs, 16 ≤ b.size ∧ b.size % 8 = 0
  kinds : ∀ b ∈ bs, b.kind = .free ∨ b.kind = .reserved ∨ ∃ t, b.kind = .live t false
  stored : ∀ e ∈ placed bs, h.blockSize e.1 = .ok e.2.size ∧ h.readFlags e.1 = .ok e.2.kind.flags
  predecessor : ∀ pre b post, bs = pre ++ b :: post →
    h.readPreviousOrGray (total size pre) = .ok (lastSize size 0 pre)
  coalesced : bs.IsChain NotBothFree
  acyclic : ∀ c, (lists c).Nodup
  heads : ∀ c, c < classCount → h.classHeads c = Segments.headOr (lists c) nullOffset
  linked : ∀ c, Segments.Seg h.nextFree h.previousFree nullOffset (lists c) nullOffset
  listed : ∀ c o, o ∈ lists c ↔ ∃ b k, (o, b) ∈ placed bs ∧ b.kind = .free ∧
    freeSizeClass b.size = some k ∧ classIndex k = c
  second : ∀ f s, f < 32 → s < 8 → ((h.secondBitmaps f).testBit s = true ↔ lists (f * 8 + s) ≠ [])
  first : ∀ f, f < 32 → (h.firstBitmap.testBit f = true ↔ ∃ s, s < 8 ∧ lists (f * 8 + s) ≠ [])
  totalFree : h.totalFree = freeBytes bs
  liveObjects : h.liveObjects = bs.countP (fun b => decide (b.kind.flags &&& LIVE ≠ 0))
  hint : h.largestFreeHint = nullOffset ∨ ∃ b, (h.largestFreeHint, b) ∈ placed bs ∧ b.kind = .free

theorem isLive_eq (b : Block) : isLive b = decide (b.kind.flags &&& LIVE ≠ 0) := by
  unfold isLive
  rcases b.kind with _ | _ | _ | _ | ⟨t, _ | _⟩ <;> simp [Kind.flags, ALLOCATED, LIVE, MARKED]

theorem Rep.validAt {o : Nat} (hr : Rep h bs) (he : (o, b) ∈ placed bs) : ValidSize b.size := by
  have hok := hr.okAt he
  have hle := hr.le_arena he
  have hsmall := hr.small
  exact ⟨hok.lo, hok.aligned, by omega⟩

theorem Sound.structural (hw : WellFormed h bs) : ∃ lists, Structural h bs lists := by
  obtain ⟨L, hl⟩ := hw.rep.lists
  have hsettled : ∀ {o b}, (o, b) ∈ placed bs → b.kind ≠ .hole :=
    fun he => (hw.tidy.settled _ (mem_of_mem_place he)).1
  refine ⟨L, ?_⟩
  exact {
    tiles := hw.rep.tiles
    sizes := fun b hb => ⟨(hw.rep.ok b hb).lo, (hw.rep.ok b hb).aligned⟩
    kinds := by
      intro b hb
      have hs := hw.tidy.settled b hb
      have hu := hw.unmarked b hb
      rcases hk : b.kind with _ | _ | _ | _ | ⟨t, _ | _⟩
      · exact .inl rfl
      · exact absurd hk hs.2
      · exact absurd hk hs.1
      · exact .inr (.inl rfl)
      · exact .inr (.inr ⟨t, rfl⟩)
      · exact absurd hk (hu t)
    stored := fun _ he => ⟨hw.rep.blockSize he (hsettled he), hw.rep.readFlags he (hsettled he)⟩
    predecessor := by
      rintro pre b post rfl
      have he := placed_mid pre post b
      have htag := hw.tidy.tagged_zero trivial
      rw [tagged_append, tagged_cons] at htag
      rw [hw.rep.readPreviousOrGray he (hsettled he), htag.2.1]
    coalesced := hw.tidy.coalesced trivial
    acyclic := hl.nodup
    heads := hl.head
    linked := hl.linked
    listed := by
      intro c o
      rw [hl.mem]
      constructor
      · rintro ⟨n, ⟨b, he, hk, rfl⟩, hc⟩
        exact ⟨b, _, he, hk, (hw.rep.validAt he).freeSizeClass_eq, hc⟩
      · rintro ⟨b, k, he, hk, hclass, hc⟩
        rw [(hw.rep.validAt he).freeSizeClass_eq] at hclass
        cases hclass
        exact ⟨_, ⟨b, he, hk, rfl⟩, hc⟩
    second := hl.bitmaps.cell
    first := hl.bitmaps.row
    totalFree := hw.totalFree
    liveObjects := by
      rw [hw.liveObjects, liveCount]
      exact countP_congr (fun b _ => by rw [isLive_eq])
    hint := hl.hint.imp_right (fun ⟨_, b, he, hk, _⟩ => ⟨b, he, hk⟩) }

end Compukter.Heap
