/-
The gray queue inside the blocks.

`Edited bs o b b' bs'` replaces the block at one offset by another of the same size; the two heap
writes of marking (flags and link) are such edits.  `Queue bs gray` says that the offsets of `gray`
form a queue that is threaded through the boundary tags of its blocks.  A reference to an unmarked live block
marks it and appends it (`enqueueGray_spec`); the head leaves with its type id (`dequeueGray_spec`).
-/
import Compukter.Gc.Collector
import Compukter.Heap.Payload
import Compukter.Lib.Marking

namespace Compukter.Heap

open Bytes Fallible Tiling Marking List Kind

/-! ## Replacing one block -/

/-- `bs'` is `bs` with the block at `o`, which was `b`, replaced by `b'`. -/
def Edited (bs : List Block) (o : Nat) (b b' : Block) (bs' : List Block) : Prop :=
  ∃ pre post, bs = pre ++ b :: post ∧ bs' = pre ++ b' :: post ∧ o = total Block.size pre ∧ b'.size = b.size

section Edited

variable {h : Heap} {bs bs' : List Block} {o : Nat} {b b' : Block}

theorem Edited.mem (he : Edited bs o b b' bs') : (o, b) ∈ placed bs := by
  obtain ⟨pre, post, rfl, -, rfl, -⟩ := he
  exact placed_mid pre post b

theorem Edited.mem' (he : Edited bs o b b' bs') : (o, b') ∈ placed bs' := by
  obtain ⟨pre, post, -, rfl, rfl, -⟩ := he
  exact placed_mid pre post b'

/-- What is placed afterwards: the new block, and the other blocks as before. -/
theorem Edited.placed_iff (he : Edited bs o b b' bs') (hr : Rep h bs) {o' : Nat} {c : Block} :
    (o', c) ∈ placed bs' ↔ (o' = o ∧ c = b') ∨ (o' ≠ o ∧ (o', c) ∈ placed bs) := by
  obtain ⟨pre, post, rfl, rfl, rfl, hsize⟩ := he
  by_cases ho : o' = total Block.size pre
  · subst ho
    constructor
    · exact fun hc => .inl ⟨rfl, placed_replace_self hr hsize hc⟩
    · rintro (⟨-, rfl⟩ | ⟨hne, -⟩)
      · exact placed_mid pre post c
      · exact absurd rfl hne
  · rw [mem_placed_replace hsize ho]
    simp [ho]

/-- A relation to a fixed list survives when it survives at the edited block. -/
theorem Edited.forall₂ {R : Block → Block → Prop} {l : List Block} (he : Edited bs o b b' bs')
    (hl : l.Forall₂ R bs) (hR : ∀ a, R a b → R a b') : l.Forall₂ R bs' := by
  obtain ⟨pre, _, rfl, rfl, -⟩ := he
  induction pre generalizing l with
  | nil =>
    cases hl with
    | cons h1 h2 => exact .cons (hR _ h1) h2
  | cons _ _ ih =>
    cases hl with
    | cons h1 h2 => exact .cons h1 (ih h2)

theorem edit_link {v : Nat} (hr : Rep h bs) (hb : (o, b) ∈ placed bs) (hv : h.LinkValue v) :
    ∃ h' bs', h.writePreviousOrGray o v = .ok h' ∧ Kept h h' ∧ Rep h' bs' ∧
      Edited bs o b { b with link := storedLink h.headerFormat v } bs' := by
  obtain ⟨pre, post, rfl, rfl⟩ := placed_split hb
  obtain ⟨h', e, kept, -, hr'⟩ := hr.setLink hv
  exact ⟨h', _, e, kept, hr', pre, post, rfl, rfl, rfl, rfl⟩

/-- The mark of a live block changes. -/
theorem edit_mark {t : Nat} {m : Bool} (m' : Bool) (hr : Rep h bs) (hb : (o, b) ∈ placed bs) (hk : b.kind = .live t m) :
    ∃ h' bs', h.writeFlags o (live t m').flags = .ok h' ∧ Kept h h' ∧ Rep h' bs' ∧
      Edited bs o b { b with kind := .live t m' } bs' := by
  have htype := (hr.stored _ hb).type t m hk
  obtain ⟨pre, post, rfl, rfl⟩ := placed_split hb
  obtain ⟨h', e, kept, -, hr'⟩ := hr.setFlags (k := .live t m') (by rw [hk]; rfl) rfl (by
    rintro t' m'' heq
    cases heq
    exact htype)
  exact ⟨h', _, e, kept, hr', pre, post, rfl, rfl, rfl, rfl⟩

theorem liveBlock_of_mem {t : Nat} {m : Bool} {ref : Ref32} (hr : Rep h bs) (hb : (o, b) ∈ placed bs)
    (hk : b.kind = .live t m) (href : ref.bits = o + 8) :
    h.liveBlock ref = .ok o ∧ ref.domain = .managed ∧ ref.payload = o + 8 := by
  obtain ⟨pre, _, rfl, rfl⟩ := placed_split hb
  obtain ⟨hlive, hdom⟩ := liveBlock_ok hr hk href
  exact ⟨hlive, hdom, (Ref32.payload_of_managed hdom).trans href⟩

/-- The reference to a placed block. -/
theorem exists_reference (hr : Rep h bs) (hb : (o, b) ∈ placed bs) :
    ∃ ref, Ref32.managed (o + 8) = some ref ∧ ref.bits = o + 8 := by
  have hle := hr.le_arena hb
  have hlo := (hr.okAt hb).lo
  have hsmall := hr.shaped.small
  obtain ⟨ref, e, hbits⟩ := @Ref32.exists_managed (o + 8) (by omega) (by omega)
  exact ⟨ref, e, hbits⟩

theorem payload_linkValue (hr : Rep h bs) (hb : (o, b) ∈ placed bs) : h.LinkValue (o + 8) := by
  have hle := hr.le_arena hb
  have hlo := (hr.okAt hb).lo
  have hal := (hr.slot hb).aligned
  exact .inr ⟨by omega, by omega⟩

end Edited

/-! ## The queue -/

/-- What the boundary tag of a queued block says about the block after it. -/
def GrayNext (bs : List Block) (o : Nat) : Option Nat → Prop
  | some o' => ∃ b, (o, b) ∈ placed bs ∧ b.link = o' + 8
  | none => ∃ b, (o, b) ∈ placed bs ∧ (b.link = 0 ∨ b.link = nullOffset)

/-- The block at `o` is live and marked. -/
def Marked (bs : List Block) (o : Nat) : Prop :=
  ∃ b t, (o, b) ∈ placed bs ∧ b.kind = .live t true

structure Queue (bs : List Block) (gray : List Nat) (head tail : Option Nat) : Prop where
  threaded : Threaded (GrayNext bs) gray
  nodup : gray.Nodup
  marked : ∀ o ∈ gray, Marked bs o
  head : head = gray.head?.map (· + 8)
  tail : tail = gray.getLast?.map (· + 8)

section Queue

variable {h : Heap} {bs bs' : List Block} {o o' : Nat} {b b' : Block} {gray : List Nat} {head tail : Option Nat}

theorem Edited.grayNext_other (he : Edited bs o b b' bs') (hr : Rep h bs) (hne : o' ≠ o) :
    ∀ v, GrayNext bs o' v → GrayNext bs' o' v
  | some _, ⟨c, hc, hl⟩ => ⟨c, (he.placed_iff hr).mpr (.inr ⟨hne, hc⟩), hl⟩
  | none, ⟨c, hc, hl⟩ => ⟨c, (he.placed_iff hr).mpr (.inr ⟨hne, hc⟩), hl⟩

theorem Edited.marked_iff (he : Edited bs o b b' bs') (hr : Rep h bs) :
    Marked bs' o' ↔ (o' = o ∧ ∃ t, b'.kind = .live t true) ∨ (o' ≠ o ∧ Marked bs o') := by
  unfold Marked
  simp only [he.placed_iff hr]
  constructor
  · rintro ⟨c, t, ⟨rfl, rfl⟩ | ⟨hne, hc⟩, hk⟩
    · exact .inl ⟨rfl, t, hk⟩
    · exact .inr ⟨hne, c, t, hc, hk⟩
  · rintro (⟨rfl, t, hk⟩ | ⟨hne, c, t, hc, hk⟩)
    · exact ⟨b', t, .inl ⟨rfl, rfl⟩, hk⟩
    · exact ⟨c, t, .inr ⟨hne, hc⟩, hk⟩

/-- Changing a link keeps all marks. -/
theorem Edited.marked_of_link {v : Nat} (he : Edited bs o b { b with link := v } bs')
    (hr : Rep h bs) : Marked bs' o' ↔ Marked bs o' := by
  rw [he.marked_iff hr]
  constructor
  · rintro (⟨rfl, t, hk⟩ | ⟨-, hm⟩)
    · exact ⟨b, t, he.mem, hk⟩
    · exact hm
  · intro hm
    by_cases ho : o' = o
    · subst ho
      obtain ⟨c, t, hc, hk⟩ := hm
      exact .inl ⟨rfl, t, hr.unique hc he.mem ▸ hk⟩
    · exact .inr ⟨ho, hm⟩

theorem linkEnd {format : HeaderFormat} :
    storedLink format nullOffset = 0 ∨ storedLink format nullOffset = nullOffset := by
  cases format with
  | legacy => exact .inr rfl
  | compact => exact .inl rfl

/-- Marking may have set the mark and changed the tag of the block. -/
def Recolour (a b : Block) : Prop :=
  b.size = a.size ∧ b.bytes = a.bytes ∧ (b.kind = a.kind ∨ ∃ t, a.kind = .live t false ∧ b.kind = .live t true)

theorem Recolour.setLink {a b : Block} (v : Nat) (h : Recolour a b) : Recolour a { b with link := v } := h

theorem Recolour.setMark {a b : Block} {t : Nat} (h : Recolour a b) (hk : b.kind = .live t false) :
    Recolour a { b with kind := .live t true } := by
  refine ⟨h.1, h.2.1, .inr ⟨t, ?_, rfl⟩⟩
  rcases h.2.2 with hsame | ⟨t', -, hm⟩
  · rw [← hsame, hk]
  · rw [hk] at hm
    cases hm

/-- One step of marking changes marks and tags only. -/
structure Marks (h : Heap) (bs : List Block) (h' : Heap) (bs' : List Block) : Prop where
  kept : Kept h h'
  rep : Rep h' bs'
  recolour : ∀ l : List Block, l.Forall₂ Recolour bs → l.Forall₂ Recolour bs'

theorem Marks.trans {h' h'' : Heap} {bs'' : List Block} (f : Marks h bs h' bs')
    (g : Marks h' bs' h'' bs'') : Marks h bs h'' bs'' :=
  ⟨f.kept.trans g.kept, g.rep, fun l hl => g.recolour l (f.recolour l hl)⟩

/-- The tail of the queue is rewired to a block that holds the end mark. -/
theorem Queue.append (hr : Rep h bs) (hq : Queue bs gray head tail) (hm : Marked bs o)
    (hend : GrayNext bs o none) (hnot : o ∉ gray) :
    ∃ h' bs' head', (match tail with
        | some previous => do
          let previous ← okOrCorrupt (Ref32.managed previous)
          let previousBlock ← h.liveBlock previous
          let h ← h.writePreviousOrGray previousBlock (o + 8)
          return (h, head, some (o + 8))
        | none => return (h, some (o + 8), some (o + 8)) :
          Except VmFault (Heap × Option Nat × Option Nat)) = .ok (h', head', some (o + 8)) ∧
      Marks h bs h' bs' ∧ Queue bs' (gray ++ [o]) head' (some (o + 8)) ∧ ∀ o', Marked bs' o' ↔ Marked bs o' := by
  rcases eq_nil_or_concat gray with rfl | ⟨q, l, rfl⟩
  · have ht : tail = none := hq.tail
    subst ht
    refine ⟨h, bs, _, rfl, ⟨Kept.refl h, hr, fun _ hl => hl⟩, ⟨?_, ?_, ?_, rfl, rfl⟩, fun _ => Iff.rfl⟩
    · exact ⟨hend, trivial⟩
    · simp
    · simpa using hm
  · rw [concat_eq_append] at hq hnot ⊢
    have ht : tail = some (l + 8) := by
      rw [hq.tail]
      simp
    subst ht
    obtain ⟨c, t, hc, hk⟩ := hq.marked l (by simp)
    obtain ⟨b, -, hb, -⟩ := id hm
    obtain ⟨ref, eref, hbits⟩ := exists_reference hr hc
    obtain ⟨elive, -, -⟩ := liveBlock_of_mem hr hc hk hbits
    have hv := payload_linkValue hr hb
    have hlt : o + 8 < nullOffset := by
      have := hr.le_arena hb
      have := hr.small
      unfold nullOffset
      omega
    obtain ⟨h', bs', e, kept, hr', hed⟩ := edit_link hr hc hv
    rw [storedLink_of_lt hlt] at hed
    have hmarks : ∀ o', Marked bs' o' ↔ Marked bs o' := fun o' => hed.marked_of_link hr
    have hlo : o ≠ l := fun heq => hnot (by simp [heq])
    have hnd := hq.nodup
    rw [nodup_append] at hnd
    refine ⟨h', bs', head, ?_, ⟨kept, hr', fun L hL => hed.forall₂ hL fun a ha => ha.setLink _⟩,
      ⟨?_, ?_, ?_, ?_, ?_⟩, hmarks⟩
    · simp only [eref, okOrCorrupt, ok_bind, elive, e, pure_eq_ok]
    · refine hq.threaded.push (fun y hy => hed.grayNext_other hr ?_) ?_ ?_
      · exact fun heq => hnd.2.2 y hy l (by simp) heq
      · exact ⟨_, hed.mem', rfl⟩
      · exact hed.grayNext_other hr hlo none hend
    · rw [nodup_append]
      refine ⟨hq.nodup, by simp, ?_⟩
      intro y hy z hz heq
      rw [mem_singleton] at hz
      exact hnot (hz ▸ heq ▸ hy)
    · intro y hy
      rw [hmarks]
      rw [mem_append, mem_singleton] at hy
      rcases hy with hy | rfl
      · exact hq.marked y hy
      · exact hm
    · rw [hq.head]
      cases q <;> rfl
    · simp

/-- **Enqueue.**  The block is marked and appended, unless it is marked already. -/
theorem enqueueGray_spec {t : Nat} {m : Bool} {ref : Ref32} (hr : Rep h bs)
    (hq : Queue bs gray head tail) (hb : (o, b) ∈ placed bs) (hk : b.kind = .live t m) (href : ref.bits = o + 8) :
    ∃ h' bs' gray' head' tail', h.enqueueGray ref head tail = .ok (h', head', tail') ∧
      Marks h bs h' bs' ∧ Queue bs' gray' head' tail' ∧ (∀ o', Marked bs' o' ↔ o' = o ∨ Marked bs o') ∧
      ∀ o', o' ∈ gray' ↔ o' ∈ gray ∨ (o' = o ∧ ¬ Marked bs o) := by
  obtain ⟨elive, hdom, hpay⟩ := liveBlock_of_mem hr hb hk href
  have hhole : b.kind ≠ .hole := by simp [hk]
  have hmarked : Marked bs o ↔ m = true := by
    constructor
    · rintro ⟨c, t', hc, hck⟩
      rw [hr.unique hc hb, hk] at hck
      cases hck
      rfl
    · rintro rfl
      exact ⟨b, t, hb, hk⟩
  unfold enqueueGray
  simp only [hdom, ne_eq, not_true_eq_false, if_false, elive, ok_bind, hr.readFlags hb hhole, hk, pure_eq_ok]
  cases m with
  | true =>
    have hflag : ¬ (live t true).flags &&& MARKED = 0 := by
      simp [flags, ALLOCATED, LIVE, MARKED]
    rw [if_pos hflag]
    have hm : Marked bs o := hmarked.mpr rfl
    refine ⟨h, bs, gray, head, tail, rfl, ⟨Kept.refl h, hr, fun _ hl => hl⟩, hq, fun o' => ?_, fun o' => ?_⟩
    · exact ⟨.inr, fun h => h.elim (fun e => e ▸ hm) id⟩
    · simp [hm]
  | false =>
    have hflag : ¬ ¬ (live t false).flags &&& MARKED = 0 := by
      simp [flags, ALLOCATED, LIVE, MARKED]
    rw [if_neg hflag]
    have hnm : ¬ Marked bs o := fun hm => by simpa using hmarked.mp hm
    have hnot : o ∉ gray := fun hmem => hnm (hq.marked o hmem)
    -- the mark, then the end mark in the tag
    obtain ⟨h1, bs1, e1, kept1, hr1, hed1⟩ := edit_mark true hr hb hk
    obtain ⟨h2, bs2, e2, kept2, hr2, hed2⟩ := edit_link hr1 hed1.mem' (.inl rfl)
    have hflags : (live t false).flags ||| MARKED = (live t true).flags := rfl
    have hm1 : ∀ o', Marked bs1 o' ↔ o' = o ∨ Marked bs o' := by
      intro o'
      rw [hed1.marked_iff hr]
      constructor
      · exact fun h => h.imp And.left And.right
      · rintro (rfl | hm)
        · exact .inl ⟨rfl, t, rfl⟩
        · exact .inr ⟨fun heq => hnm (heq ▸ hm), hm⟩
    have hm2 : ∀ o', Marked bs2 o' ↔ o' = o ∨ Marked bs o' := fun o' =>
      (hed2.marked_of_link hr1).trans (hm1 o')
    have hq2 : Queue bs2 gray head tail := by
      refine ⟨hq.threaded.congr fun y hy v hv => ?_, hq.nodup, ?_, hq.head, hq.tail⟩
      · have hne : y ≠ o := fun heq => hnot (heq ▸ hy)
        exact hed2.grayNext_other hr1 hne v (hed1.grayNext_other hr hne v hv)
      · exact fun y hy => (hm2 y).mpr (.inr (hq.marked y hy))
    have hend : GrayNext bs2 o none := ⟨_, hed2.mem', linkEnd⟩
    obtain ⟨h3, bs3, head', e3, marks3, hq3, hm3⟩ :=
      hq2.append hr2 ((hm2 o).mpr (.inl rfl)) hend hnot
    refine ⟨h3, bs3, gray ++ [o], head', some (o + 8), ?_, ?_, hq3, ?_, ?_⟩
    · simp only [hflags, e1, ok_bind, e2, hpay]
      exact e3
    · refine Marks.trans ⟨kept1.trans kept2, hr2, fun l hl => ?_⟩ marks3
      exact hed2.forall₂ (hed1.forall₂ hl fun a ha => ha.setMark hk) fun a ha => ha.setLink _
    · exact fun o' => (hm3 o').trans (hm2 o')
    · intro o'
      simp [hnm]

theorem dequeueGray_empty (hq : Queue bs [] head tail) : h.dequeueGray head tail = .ok (h, none, none, none) := by
  have hh : head = none := hq.head
  have ht : tail = none := hq.tail
  rw [hh, ht]
  rfl

/-- **Dequeue.**  The head leaves the queue; no mark changes. -/
theorem dequeueGray_spec (hr : Rep h bs) (hq : Queue bs (o :: gray) head tail)
    (htypes : ∀ b t m, (o, b) ∈ placed bs → b.kind = .live t m → t < 2 ^ 32) :
    ∃ h' bs' head' tail' ref t, h.dequeueGray head tail = .ok (h', head', tail', some (ref, t)) ∧
      Marks h bs h' bs' ∧ Queue bs' gray head' tail' ∧ (∀ o', Marked bs' o' ↔ Marked bs o') ∧
      ref.bits = o + 8 ∧ ∃ b, (o, b) ∈ placed bs' ∧ b.kind = .live t true := by
  obtain ⟨b, t, hb, hk⟩ := hq.marked o (by simp)
  have hhole : b.kind ≠ .hole := by simp [hk]
  obtain ⟨ref, eref, hbits⟩ := exists_reference hr hb
  obtain ⟨elive, -, -⟩ := liveBlock_of_mem hr hb hk hbits
  obtain ⟨h', bs', e, kept, hr', hed⟩ := edit_link hr hb (.inl rfl)
  obtain ⟨elive', -, -⟩ := liveBlock_of_mem hr' hed.mem' hk hbits
  have etype : h'.managedType ref = .ok t := by
    rw [managedType, elive']
    exact hr'.readType hed.mem' hk (htypes b t true hb hk)
  have hmarks : ∀ o', Marked bs' o' ↔ Marked bs o' := fun o' => hed.marked_of_link hr
  have hnd := nodup_cons.mp hq.nodup
  -- the tag of the old head is the new head
  have hnext : (if b.link ≠ nullOffset ∧ b.link ≠ 0 then some b.link else none) = gray.head?.map (· + 8) := by
    have hthread := hq.threaded.1
    cases gray with
    | nil =>
      obtain ⟨c, hc, hl⟩ := hthread
      rw [hr.unique hc hb] at hl
      rw [if_neg (fun hne => hl.elim hne.2 hne.1)]
      rfl
    | cons o' =>
      obtain ⟨c, hc, hl⟩ := hthread
      rw [hr.unique hc hb] at hl
      obtain ⟨d, -, hd, -⟩ := hq.marked o' (by simp)
      have hle := hr.le_arena hd
      have hsmall := hr.small
      rw [if_pos (by unfold nullOffset; omega), hl]
      rfl
  have hhead : head = some (o + 8) := hq.head
  subst hhead
  refine ⟨h', bs', gray.head?.map (· + 8), gray.getLast?.map (· + 8), ref, t, ?_,
    ⟨kept, hr', fun l hl => hed.forall₂ hl fun a ha => ha.setLink _⟩, ⟨?_, hnd.2, ?_, rfl, rfl⟩,
    hmarks, hbits, _, hed.mem', hk⟩
  · simp only [dequeueGray, eref, okOrCorrupt, ok_bind, elive, hr.readPreviousOrGray hb hhole, e, hnext,
      etype, pure_eq_ok]
    congr 4
    cases gray with
    | nil => rfl
    | cons =>
      rw [if_neg (by simp), hq.tail, getLast?_cons_cons]
  · refine hq.threaded.2.congr fun y hy v hv => hed.grayNext_other hr ?_ v hv
    exact fun heq => hnd.1 (heq ▸ hy)
  · exact fun y hy => (hmarks y).mpr (hq.marked y (mem_cons_of_mem o hy))

end Queue

end Compukter.Heap
