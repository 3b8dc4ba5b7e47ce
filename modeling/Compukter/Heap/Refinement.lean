/-
What the heap operations do to the list of blocks.

Releasing a block merges it with the free blocks next to it: `freeBlock_spec` names the free
neighbours that are absorbed (`lead` before, `trail` after) and the block that is left.  Taking a
block for a request splits it when the rest is large enough: `reserve_spec`.

The only boundary tags that a release READS are those of the block itself and of an absorbed
predecessor, so the lemmas ask for these only; the sweep relies on that.
-/
import Compukter.Heap.Edits

namespace Compukter.Heap

open Bytes Bits Fallible Tiling List
open Block (size)

/-- No operation is working on the block. -/
def Settled (b : Block) : Prop := b.kind ≠ .hole ∧ b.kind ≠ .detached

theorem Settled.free_of_not_allocated {b : Block} (hs : Settled b)
    (ha : b.kind.allocated = false) : b.kind = .free := by
  rcases hk : b.kind with _ | _ | _ | _ | ⟨t, m⟩
  · rfl
  · exact absurd hk hs.2
  · exact absurd hk hs.1
  · rw [hk] at ha
    cases ha
  · rw [hk] at ha
    cases ha

/-- Write the tag of the first block. -/
def tagHead (v : Nat) : List Block → List Block
  | [] => []
  | c :: cs => { c with link := v } :: cs

theorem free_place_tagHead {v o n x : Nat} {l : List Block} :
    (∃ b, (o, b) ∈ place size x (tagHead v l) ∧ b.kind = .free ∧ b.size = n) ↔
      ∃ b, (o, b) ∈ place size x l ∧ b.kind = .free ∧ b.size = n := by
  cases l with
  | nil => exact Iff.rfl
  | cons => simp [tagHead, or_and_right, exists_or]

theorem checkedAdd_ok {a b : Nat} (h : a + b < 2 ^ 32) : checkedAdd a b = .ok (a + b) := by
  rw [checkedAdd, if_pos h]

theorem checkedSub_ok {a b : Nat} (h : b ≤ a) : checkedSub a b = .ok (a - b) := by
  rw [checkedSub, if_pos h]

section Release

variable {h : Heap} {pre post : List Block} {b : Block}

/-- The list of blocks around `b` and where they end. -/
theorem Rep.total_mid (hr : Rep h (pre ++ b :: post)) : total size pre + b.size + total size post = h.arenaBytes := by
  rw [← hr.tiles]
  simp [Nat.add_assoc]

theorem updateNextPreviousSize_spec (hr : Rep h (pre ++ b :: post)) :
    ∃ h', h.updateNextPreviousSize (total size pre) b.size = .ok h' ∧ Kept h h' ∧
      h'.largestFreeHint = h.largestFreeHint ∧ Rep h' (pre ++ b :: tagHead b.size post) := by
  have htotal := hr.total_mid
  have hsmall := hr.small
  simp only [updateNextPreviousSize, checkedAdd_ok (show total size pre + b.size < 2 ^ 32 by
    omega), ok_bind]
  cases post with
  | nil =>
    rw [if_neg (by simp at htotal; omega)]
    exact ⟨h, rfl, Kept.refl h, rfl, hr⟩
  | cons c cs =>
    have hlist : ∀ d : Block, pre ++ b :: d :: cs = (pre ++ [b]) ++ d :: cs := by simp
    have hc := (hr.ok c (by simp)).lo
    have hb := hr.ok b (by simp)
    rw [total_cons] at htotal
    rw [if_pos (by omega)]
    rw [hlist] at hr
    obtain ⟨h', e, kept, hint, hr'⟩ := hr.setLink (v := b.size) (.inr ⟨hb.aligned, by omega⟩)
    rw [storedLink_of_lt (by unfold nullOffset; omega), ← hlist] at hr'
    refine ⟨h', ?_, kept, hint, hr'⟩
    rw [← e]
    simp

/-- A block in place of another leaves the hint as good as it was, if it is free where that was. -/
theorem Covers.replace {h' : Heap} {d : Block} {k : Nat} (hc : h.HintCovers (pre ++ b :: post) k)
    (hhint : h'.largestFreeHint = h.largestFreeHint) (hsize : d.size = b.size)
    (hkind : b.kind = .free → d.kind = .free) : h'.HintCovers (pre ++ d :: post) k := by
  rw [HintCovers, hhint]
  refine hc.mono ?_ (Nat.le_refl k)
  rintro m ⟨c, hmem, hck, rfl⟩
  rcases mem_placed_mid.mp hmem with hmem | hmem | hmem
  · exact ⟨c, mem_placed_mid.mpr (.inl hmem), hck, rfl⟩
  · obtain ⟨ho, rfl⟩ := Prod.mk.inj hmem
    exact ⟨d, mem_placed_mid.mpr (.inr (.inl (by rw [ho]))), hkind hck, hsize⟩
  · exact ⟨c, mem_placed_mid.mpr (.inr (.inr (by rw [hsize]; exact hmem))), hck, rfl⟩

/-! ### Merging with the neighbours -/

/-- The free predecessor that a release absorbs, if there is one.  With the right tag `v`, none is passed by. -/
def AbsorbsLeft (v : Nat) (pre pre' lead : List Block) : Prop :=
  (pre = pre' ∧ lead = [] ∧ (v = lastSize size 0 pre → ∀ p ∈ pre.getLast?, p.kind ≠ .free)) ∨
    ∃ p, pre = pre' ++ [p] ∧ p.kind = .free ∧ lead = [{ p with kind := .detached }]

/-- The free successor that a release absorbs, if there is one. -/
def AbsorbsRight (post post' trail : List Block) : Prop :=
  (post = post' ∧ trail = [] ∧ ∀ q ∈ post.head?, q.kind ≠ .free) ∨
    ∃ q, post = q :: post' ∧ q.kind = .free ∧ trail = [{ q with kind := .detached }]

/-- The tag of `b` is the size of the block before it, or leads to a header that is allocated. -/
def Backed (h : Heap) (pre : List Block) (b : Block) : Prop :=
  b.link = lastSize size 0 pre ∨ b.link ≤ total size pre ∧ h.blockAllocated (total size pre - b.link) = .ok true

theorem absorbPrevious_spec (hr : Rep h (pre ++ b :: post)) (hs : ∀ p ∈ pre, Settled p)
    (hback : pre ≠ [] → h.Backed pre b) : ∃ h' pre' lead, AbsorbsLeft b.link pre pre' lead ∧
      h.absorbPrevious ⟨total size pre, b.size, b.link⟩ =
        .ok (h', ⟨total size pre', total size lead + b.size, (lead.headD b).link⟩) ∧
      Kept h h' ∧ Rep h' (pre' ++ lead ++ b :: post) ∧ ∀ k, h.HintCovers (pre ++ b :: post) k →
        h'.HintCovers (pre' ++ lead ++ b :: post) k ∨ k ≤ total size lead := by
  rcases eq_nil_or_concat pre with rfl | ⟨init, p, hpre⟩
  · refine ⟨h, [], [], .inl ⟨rfl, rfl, by simp⟩, ?_, Kept.refl h, hr, fun _ hk => .inl hk⟩
    simp [absorbPrevious]
  · rw [concat_eq_append] at hpre
    subst hpre
    have hlist : ∀ d : Block, init ++ [d] ++ b :: post = init ++ d :: b :: post := by simp
    have hp := hs p (by simp)
    have hok := hr.ok p (by simp)
    have hlo := hok.lo
    have htotal := hr.total_mid
    have hsmall := hr.small
    by_cases htag : b.link = lastSize size 0 (init ++ [p])
    case neg =>
      obtain ⟨hle, ha⟩ := (hback (by simp)).resolve_left htag
      have hne : total size (init ++ [p]) ≠ 0 := by
        simp only [total_append, total_cons]
        omega
      refine ⟨h, _, [], .inl ⟨rfl, rfl, fun hv => absurd hv htag⟩, ?_, Kept.refl h, by simpa using hr, fun k hk => .inl ?_⟩
      · rw [absorbPrevious, if_pos hne, checkedSub_ok hle, ok_bind, ha]
        simp
      · rwa [append_nil]
    rw [htag]
    simp only [total_append, total_cons, total_nil, Nat.add_zero, lastSize_append, lastSize_cons,
      lastSize_nil] at htotal ⊢
    rw [hlist] at hr
    have he := placed_mid init (b :: post) p
    have hsub : checkedSub (total size init + p.size) p.size = .ok (total size init) := by
      rw [checkedSub_ok (by omega), Nat.add_sub_cancel]
    have halloc := hr.blockAllocated he hp.1
    simp only [absorbPrevious, ne_eq, show ¬ total size init + p.size = 0 by omega,
      not_false_eq_true, if_true, hsub, ok_bind, halloc]
    cases ha : p.kind.allocated with
    | true =>
      refine ⟨h, init ++ [p], [], .inl ⟨rfl, rfl, ?_⟩, ?_, Kept.refl h, ?_, fun k hk => .inl ?_⟩
      · intro _ q hq
        simp only [getLast?_append_of_ne_nil _ (cons_ne_nil p []),
          getLast?_singleton, Option.mem_some_iff] at hq
        rw [← hq]
        exact Kind.ne_free ha
      · simp [htag]
      · simpa using hr
      · rwa [append_nil]
    | false =>
      have hfree := hp.free_of_not_allocated ha
      obtain ⟨h', e, kept, hr', hhint⟩ := hr.detach hfree
      have he' := placed_mid init (b :: post) { p with kind := .detached }
      have hsize' := hr'.blockSize he' (by simp)
      have hlink' := hr'.readPreviousOrGray he' (by simp)
      refine ⟨h', init, [{ p with kind := .detached }], .inr ⟨p, rfl, hfree, rfl⟩, ?_, kept, ?_,
        fun k hk => ?_⟩
      · simp only [Bool.not_false, if_true, e, ok_bind, hsize', hlink', pure_eq_ok,
          checkedAdd_ok (show b.size + p.size < 2 ^ 32 by omega)]
        simp [Nat.add_comm]
      · simpa using hr'
      · rw [hlist] at hk ⊢
        exact hhint k hk

theorem absorbNext_spec (n link : Nat) {mid : List Block} (hr : Rep h (pre ++ mid ++ post))
    (hs : ∀ q ∈ post, Settled q) (hmid : total size mid = n) : ∃ h' post' trail, AbsorbsRight post post' trail ∧
      h.absorbNext ⟨total size pre, n, link⟩ = .ok (h', ⟨total size pre, n + total size trail, link⟩) ∧
      Kept h h' ∧ Rep h' (pre ++ mid ++ trail ++ post') ∧ ∀ k, h.HintCovers (pre ++ mid ++ post) k →
        h'.HintCovers (pre ++ mid ++ trail ++ post') k ∨ k ≤ total size trail := by
  have htotal : total size pre + n + total size post = h.arenaBytes := by
    rw [← hr.tiles, ← hmid]
    simp [Nat.add_assoc]
  have hsmall := hr.small
  simp only [absorbNext, checkedAdd_ok (show total size pre + n < 2 ^ 32 by omega), ok_bind]
  cases post with
  | nil =>
    refine ⟨h, [], [], .inl ⟨rfl, rfl, by simp⟩, ?_, Kept.refl h, by simpa using hr,
      fun k hk => .inl (by rwa [append_nil])⟩
    rw [if_neg (by simp at htotal; omega)]
    rfl
  | cons q rest =>
    have hq := hs q (by simp)
    have hlo := (hr.ok q (by simp)).lo
    rw [total_cons] at htotal
    have he := placed_mid (pre ++ mid) rest q
    rw [total_append, hmid] at he
    rw [if_pos (by omega)]
    simp only [hr.blockAllocated he hq.1, ok_bind]
    cases ha : q.kind.allocated with
    | true =>
      refine ⟨h, q :: rest, [], .inl ⟨rfl, rfl, ?_⟩, by simp, Kept.refl h, by simpa using hr,
        fun k hk => .inl (by rwa [append_nil])⟩
      intro q' hq'
      simp only [head?_cons, Option.mem_some_iff] at hq'
      rw [← hq']
      exact Kind.ne_free ha
    | false =>
      have hfree := hq.free_of_not_allocated ha
      obtain ⟨h', e, kept, hr', hhint⟩ := hr.detach hfree
      rw [total_append, hmid] at e
      have he' := placed_mid (pre ++ mid) rest { q with kind := .detached }
      rw [total_append, hmid] at he'
      have hsize' := hr'.blockSize he' (by simp)
      have hlist : pre ++ mid ++ [{ q with kind := .detached }] ++ rest =
          pre ++ mid ++ { q with kind := .detached } :: rest := by simp
      rw [← hlist] at hr' hhint
      refine ⟨h', rest, [{ q with kind := .detached }], .inr ⟨q, rfl, hfree, rfl⟩, ?_, kept, hr',
        hhint⟩
      simp only [Bool.not_false, if_true, e, ok_bind, hsize', pure_eq_ok,
        checkedAdd_ok (show n + q.size < 2 ^ 32 by omega)]
      simp

/-- A boundary tag is a multiple of the alignment and smaller than the arena. -/
theorem Rep.lastSize_bounds (hr : Rep h (pre ++ b :: post)) :
    lastSize size 0 pre % 8 = 0 ∧ lastSize size 0 pre < h.arenaBytes := by
  have htotal := hr.total_mid
  have hlo := (hr.ok b (by simp)).lo
  by_cases hpre : pre = []
  · subst hpre
    exact ⟨rfl, by rw [lastSize_nil]; omega⟩
  · obtain ⟨_, p, rfl, hlast⟩ := exists_append_last size hpre 0
    rw [hlast]
    simp only [total_append, total_cons, total_nil] at htotal
    exact ⟨(hr.ok p (by simp)).aligned, by omega⟩

variable {pre pre' lead : List Block} {v : Nat}

theorem AbsorbsLeft.lead_kind (h : AbsorbsLeft v pre pre' lead) :
    (∀ p ∈ lead, p.kind ≠ .free) ∧ total size pre = total size pre' + total size lead := by
  rcases h with ⟨rfl, rfl, -⟩ | ⟨p, rfl, -, rfl⟩
  · simp
  · simp

theorem AbsorbsRight.trail_kind {post post' trail : List Block} (h : AbsorbsRight post post' trail) :
    ∀ q ∈ trail, q.kind ≠ .free := by
  rcases h with ⟨rfl, rfl, -⟩ | ⟨q, rfl, -, rfl⟩
  · simp
  · simp

/-- The tag that the merged block takes over. -/
theorem AbsorbsLeft.headD_link {first : Nat} (h : AbsorbsLeft v pre pre' lead)
    (htag : Tagged size Block.link first (pre ++ [b])) : (lead.headD b).link = lastSize size first pre' := by
  rcases h with ⟨rfl, rfl, -⟩ | ⟨p, rfl, -, rfl⟩
  · exact (tagged_append.mp htag).2.1
  · exact (tagged_append.mp (tagged_append.mp htag).1).2.1

theorem AbsorbsLeft.tag (hl : AbsorbsLeft v pre pre' lead) (hr : Rep h (pre ++ b :: post)) (hk : b.kind ≠ .hole) :
    h.headerFormat.Tag (lead.headD b).link := by
  rcases hl with ⟨rfl, rfl, -⟩ | ⟨p, rfl, hp, rfl⟩
  · exact hr.tag (placed_mid pre post b) hk
  · rw [append_assoc] at hr
    have htag := hr.tag (placed_mid pre' (b :: post) p) (by simp [hp])
    exact htag

/-- The last steps of a release, on a range of bytes that is in no list: write the header of the
merged block, tell the block after it, and put it into its list. -/
theorem finishFree_spec {mid : List Block} (prev : Nat) (hr : Rep h (pre ++ mid ++ post))
    (hne : mid ≠ []) (hfree : ∀ c ∈ mid, c.kind ≠ .free) (hprev : h.headerFormat.Tag prev) : ∃ h1 h2 h3 bytes,
      h.writeHeader (total size pre) (total size mid) prev false = .ok h1 ∧
      h1.updateNextPreviousSize (total size pre) (total size mid) = .ok h2 ∧
      h2.insertFree (total size pre) = .ok h3 ∧ Kept h h3 ∧ Rep h3 (pre ++ ⟨total size mid, .free, prev, bytes⟩ ::
        tagHead (total size mid) post) ∧ ∀ k, h.HintCovers (pre ++ mid ++ post) k ∨ k ≤ total size mid →
        h3.HintCovers (pre ++ ⟨total size mid, .free, prev, bytes⟩ :: tagHead (total size mid) post) k := by
  obtain ⟨h1, bytes, e1, kept1, hint1, hr1⟩ := hr.writeHeader prev false hne hfree hprev
  obtain ⟨h2, e2, kept2, hint2, hr2⟩ := updateNextPreviousSize_spec hr1
  obtain ⟨h3, e3, kept3, hr3, hnew, hold⟩ := hr2.attach rfl
  refine ⟨h1, h2, h3, bytes, e1, e2, e3, (kept1.trans kept2).trans kept3, hr3, ?_⟩
  rintro k (hk | hk)
  · -- the range itself was in no list, so the block of the hint is outside
    refine hold k ?_
    rw [HintCovers, hint2, hint1]
    refine hk.mono (fun m hm => ?_) (Nat.le_refl k)
    rw [append_cons, freeIn_append, free_place_tagHead]
    exact (freeIn_append.mp hm).imp_right fun hm => .inr (hm.resolve_left (not_free_of_mem_place hfree))
  · exact hnew.mono (fun _ hm => hm) hk

/-- **Release.** The block merges with its free neighbours into one listed block. -/
theorem freeBlock_spec (hr : Rep h (pre ++ b :: post)) (ha : b.kind.allocated = true)
    (hs : ∀ c ∈ pre ++ post, Settled c) (hback : pre ≠ [] → h.Backed pre b)
    (hfree : h.totalFree + b.size < 2 ^ 32) :
    ∃ h' pre' lead trail post' bytes, AbsorbsLeft b.link pre pre' lead ∧ AbsorbsRight post post' trail ∧
      h.freeBlock (total size pre) = .ok h' ∧
      Kept { h with totalFree := h.totalFree + b.size } h' ∧
      Rep h' (pre' ++ ⟨total size (lead ++ b :: trail), .free, (lead.headD b).link,
        bytes⟩ :: tagHead (total size (lead ++ b :: trail)) post') ∧
      ∀ k, h.HintCovers (pre ++ b :: post) k ∨ k ≤ total size (lead ++ b :: trail) →
        h'.HintCovers (pre' ++ ⟨total size (lead ++ b :: trail), .free, (lead.headD b).link, bytes⟩ ::
            tagHead (total size (lead ++ b :: trail)) post') k := by
  have he := placed_mid pre post b
  have hhole := Kind.ne_hole ha
  have hbk := Kind.ne_free ha
  obtain ⟨h1, pre', lead, hleft, e1, kept1, hr1, hint1⟩ := absorbPrevious_spec hr
    (fun p hp => hs p (by simp [hp])) hback
  obtain ⟨hlead, hpre⟩ := hleft.lead_kind
  have hassoc : pre' ++ lead ++ b :: post = pre' ++ (lead ++ [b]) ++ post := by simp
  rw [hassoc] at hr1 hint1
  obtain ⟨h2, post', trail, hright, e2, kept2, hr2, hint2⟩ := absorbNext_spec
    (total size lead + b.size) (lead.headD b).link hr1 (fun q hq => hs q (by simp [hq])) (by simp)
  have htrail := hright.trail_kind
  have hmid : ∀ c ∈ lead ++ b :: trail, c.kind ≠ .free := by
    intro c hc
    rw [mem_append, mem_cons] at hc
    rcases hc with hc | rfl | hc
    · exact hlead c hc
    · exact hbk
    · exact htrail c hc
  have hassoc2 : pre' ++ (lead ++ [b]) ++ trail ++ post' = pre' ++ (lead ++ b :: trail) ++ post' := by
    simp
  rw [hassoc2] at hr2 hint2
  -- the header of the released block becomes interior storage
  obtain ⟨h3, e3, kept3, hint3, hr3⟩ : ∃ h3, (if total size pre' ≠ total size pre then
        h2.writeFlags (total size pre) 0 else .ok h2) = .ok h3 ∧ Kept h2 h3 ∧
      h3.largestFreeHint = h2.largestFreeHint ∧
      Rep h3 (pre' ++ ((lead ++ b :: trail).map size).map holeOf ++ post') := by
    have hsizes : ∀ n ∈ (lead ++ b :: trail).map size, 16 ≤ n ∧ n % 8 = 0 := by
      intro n hn
      obtain ⟨c, hc, rfl⟩ := mem_map.mp hn
      have := hr2.ok c (mem_append_left _ (mem_append_right _ hc))
      exact ⟨this.lo, this.aligned⟩
    have hr2' := hr2.blur _ hmid hsizes (total_map_holeOf _)
    by_cases hne : total size pre' = total size pre
    · rw [if_neg (not_not.mpr hne)]
      exact ⟨h2, rfl, Kept.refl h2, rfl, hr2'⟩
    · rw [if_pos hne]
      have hsplit : pre' ++ ((lead ++ b :: trail).map size).map holeOf ++ post' =
          (pre' ++ (lead.map size).map holeOf) ++ holeOf b.size ::
            ((trail.map size).map holeOf ++ post') := by simp
      rw [hsplit] at hr2' ⊢
      have htot : total size (pre' ++ (lead.map size).map holeOf) =
          total size pre := by rw [total_append, total_map_holeOf, hpre]
      have hlo := (hr.ok b (by simp)).lo
      have hslot := hr2'.slot (placed_mid _ _ _)
      rw [htot] at hslot
      obtain ⟨h3, e3, f3, -⟩ := writeFlags_ok (f := 0) hslot (by decide)
      refine ⟨h3, e3, f3.kept, f3.hint, hr2'.scribble rfl f3 (by rw [htot]) ?_⟩
      change _ ≤ _ + b.size
      omega
  have hkept3 := (kept1.trans kept2).trans kept3
  obtain ⟨h4, h5, h6, bytes, e4, e5, e6, kept6, hr6, hint6⟩ := finishFree_spec _ hr3 (by simp)
    (fun c => holes_not_free) (hkept3.format ▸ hleft.tag hr hhole)
  rw [total_map_holeOf] at e4 e5 hr6 hint6
  have hkept := hkept3.trans kept6
  refine ⟨{ h6 with totalFree := h.totalFree + b.size }, pre', lead, trail, post', bytes, hleft,
    hright, ?_, ⟨hkept.format, hkept.size, rfl, hkept.live⟩, hr6.setCounts _ h6.liveObjects, ?_⟩
  · have hsz : total size lead + b.size + total size trail =
        total size (lead ++ b :: trail) := by simp [Nat.add_assoc]
    rw [hsz] at e2
    simp only [freeBlock, hr.blockAllocated he hhole, ha, hr.blockSize he hhole,
      hr.readPreviousOrGray he hhole, ok_bind, e1, e2, e3, e4, e5, e6, hkept.free,
      checkedAdd_ok hfree]
    rfl
  · -- an absorbed block takes the hint with it, but the merged block is larger
    intro k hk
    refine hint6 k ?_
    have hblur : h2.HintCovers (pre' ++ (lead ++ b :: trail) ++ post') k → h3.HintCovers
        (pre' ++ ((lead ++ b :: trail).map size).map holeOf ++ post') k := by
      intro hc
      rw [HintCovers, hint3]
      refine hc.mono (fun m hm => ?_) (Nat.le_refl k)
      rw [freeIn_append, total_map_holeOf]
      exact (freeIn_append.mp hm).imp_right fun hm => .inr (hm.resolve_left (not_free_of_mem_place hmid))
    simp only [total_append, total_cons] at hk ⊢
    rcases hk with hk | hk
    · rcases hint1 k hk with hk | hk
      · exact (hint2 k hk).imp hblur (by omega)
      · exact .inr (by omega)
    · exact .inr hk

end Release

end Compukter.Heap
