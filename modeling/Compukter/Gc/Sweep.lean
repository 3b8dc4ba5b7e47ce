/-
The sweep rebuilds the heap.

The cursor splits the blocks into `done ++ rest`.  Before the cursor everything is as it should be after the
collection; from the cursor on the blocks are those that marking left, with whatever the gray queue wrote
into their tags.

One step takes the first block of `rest`: it repairs its tag and then keeps a free block, clears a mark, or
releases an unmarked object.  A release may merge the object with its neighbours on BOTH sides, so the cursor
then jumps over a free block that was still ahead (`Swept`, `sweepBlock_spec`).
-/
import Compukter.Gc.Queue

namespace Compukter.Heap

open Bytes Fallible Tiling Kind List
open Block (size)

/-- The blocks after a sweep of `done`, compared with the blocks `bs₁` that marking left. -/
structure Swept (h₁ : Heap) (bs₁ : List Block) (h : Heap) (done rest : List Block) : Prop where
  rep : Rep h (done ++ rest)
  format : h.headerFormat = h₁.headerFormat
  extent : h.arenaBytes = h₁.arenaBytes
  settled : ∀ b ∈ done ++ rest, Settled b
  tagged : Tagged size Block.link 0 done
  coalesced : (done ++ rest).IsChain NotBothFree
  totalFree : h.totalFree = freeBytes (done ++ rest)
  liveObjects : h.liveObjects = liveCount (done ++ rest)
  view : ∀ o k n f, k.allocated = true → (View (done ++ rest) o k n f ↔
    (o < total size done ∧ ∃ t, k = .live t false ∧ View bs₁ o (.live t true) n f) ∨
    (total size done ≤ o ∧ View bs₁ o k n f))
  hint : ∀ b ∈ done, b.kind = .free → h.HintCovers (done ++ rest) b.size

section Views

variable {h h₁ : Heap} {bs₁ pre post done rest : List Block} {b : Block} {o n : Nat} {k : Kind} {f : Nat → UInt8}

/-- A view is left of a block, the block itself, or right of it. -/
theorem view_cases (hv : View (pre ++ b :: post) o k n f) : o + n ≤ total size pre ∨
      (o = total size pre ∧ k = b.kind ∧ n = b.size ∧ f = b.bytes) ∨ total size pre + b.size ≤ o := by
  obtain ⟨v, hv⟩ := hv
  rcases mem_placed_mid.mp hv with hv | hv | hv
  · have := (place_bounds hv).2
    exact .inl (by rw [Nat.zero_add] at this; exact this)
  · simp only [Prod.mk.injEq] at hv
    obtain ⟨ho, rfl⟩ := hv
    exact .inr (.inl ⟨ho, rfl, rfl, rfl⟩)
  · exact .inr (.inr (place_bounds hv).1)

theorem view_pos (hr : Rep h (done ++ rest)) (hv : View (done ++ rest) o k n f) : 0 < n := by
  obtain ⟨v, hv⟩ := hv
  have hlo : 16 ≤ n := (hr.okAt hv).lo
  omega

/-- The views after a step, from what happens outside and inside the swept stretch. -/
theorem Swept.view_step {done' rest' : List Block} (hs : Swept h₁ bs₁ h done rest)
    (hle : total size done ≤ total size done')
    (houtside : ∀ o k n f, k.allocated = true → o < total size done ∨ total size done' ≤ o →
      (View (done' ++ rest') o k n f ↔ View (done ++ rest) o k n f))
    (hmid : ∀ o k n f, k.allocated = true → total size done ≤ o → o < total size done' →
      (View (done' ++ rest') o k n f ↔ ∃ t, k = .live t false ∧ View (done ++ rest) o (.live t true) n f))
    (o : Nat) (k : Kind) (n : Nat) (f : Nat → UInt8) (hk : k.allocated = true) : View (done' ++ rest') o k n f ↔
      (o < total size done' ∧ ∃ t, k = .live t false ∧ View bs₁ o (.live t true) n f) ∨
      (total size done' ≤ o ∧ View bs₁ o k n f) := by
  have hold := hs.view o
  by_cases h1 : o < total size done
  · rw [houtside o k n f hk (.inl h1), hold k n f hk]
    simp [h1, Nat.lt_of_lt_of_le h1 hle, Nat.not_le_of_lt h1, Nat.not_le_of_lt (Nat.lt_of_lt_of_le h1 hle)]
  · by_cases h2 : o < total size done'
    · rw [hmid o k n f hk (Nat.le_of_not_lt h1) h2]
      simp only [h2, true_and, Nat.not_le_of_lt h2, false_and, or_false]
      refine exists_congr fun t => and_congr_right fun _ => ?_
      rw [hold (.live t true) n f rfl]
      simp [h1, Nat.le_of_not_lt h1]
    · rw [houtside o k n f hk (.inr (Nat.le_of_not_lt h2)), hold k n f hk]
      simp [h1, h2, Nat.le_of_not_lt h1, Nat.le_of_not_lt h2]

end Views

/-! ## The three kinds of steps -/

section Step

variable {h h₁ : Heap} {bs₁ done rest pre post : List Block} {b : Block}

theorem Rep.observe (hr : Rep h (pre ++ b :: post)) (hk : b.kind = .free) :
    ∃ h', h.observeFreeBlock (total size pre) = .ok h' ∧ Kept h h' ∧
      Rep h' (pre ++ b :: post) ∧ h'.HintCovers (pre ++ b :: post) b.size ∧
      ∀ k, h.HintCovers (pre ++ b :: post) k → h'.HintCovers (pre ++ b :: post) k := by
  obtain ⟨L, hl⟩ := hr.lists
  obtain ⟨h', e, edit, hl', hhint⟩ := observeFreeBlock_spec hl ⟨b, placed_mid pre post b, hk, rfl⟩
  refine ⟨h', e, edit.kept, ⟨hl'.shaped, ?_, hr.ok, hr.stored_linkEdit edit (fun _ h => h.elim), L, hl'⟩, hhint⟩
  rw [hr.tiles, edit.size]

/-- Replacing the block at the cursor by one that does not merge keeps what does not depend on
marks. -/
theorem Swept.advance {d : Block} {h' : Heap} (hs : Swept h₁ bs₁ h done (b :: rest))
    (hr : Rep h' (done ++ d :: rest)) (kept : Kept h h') (hsize : d.size = b.size)
    (hfree : d.kind = .free ↔ b.kind = .free) (hlive : isLive d = isLive b) (hsettled : Settled d)
    (htag : d.link = lastSize size 0 done)
    (hmark : ∀ k, k.allocated = true → (k = d.kind ↔ ∃ t, k = .live t false ∧
      live t true = b.kind)) (hbytes : d.bytes = b.bytes)
    (hhint : ∀ k, h.HintCovers (done ++ b :: rest) k ∨ (d.kind = .free ∧ k = d.size) →
      h'.HintCovers (done ++ d :: rest) k) : Swept h₁ bs₁ h' (done ++ [d]) rest := by
  have hlist : done ++ [d] ++ rest = done ++ d :: rest := by simp
  have hnext : total size (done ++ [d]) = total size done + b.size := by simp [hsize]
  have hpos := (hs.rep.ok b (by simp)).lo
  have hreplace := fun o k n f => view_replace (o := o) (k := k) (n := n) (f := f) (d := d) hs.rep.size_pos hsize
  refine ⟨by rw [hlist]; exact hr, kept.format.trans hs.format, kept.size.trans hs.extent, ?_, ?_,
    ?_, ?_, ?_, hs.view_step (by omega) ?_ ?_, ?_⟩
  · rw [hlist]
    exact forall_mem_replace hs.settled hsettled
  · rw [tagged_append]
    exact ⟨hs.tagged, htag, trivial⟩
  · rw [hlist]
    exact chain_replace hs.coalesced hfree.mp
  · rw [kept.free, hs.totalFree, hlist]
    simp only [freeBytes_append, freeBytes_cons, hsize, hfree]
  · rw [kept.live, hs.liveObjects, hlist]
    simp only [liveCount_append, liveCount_cons, hlive]
  · intro o k n f hk hoff
    rw [hlist, hreplace]
    constructor
    · rintro (⟨hv, -⟩ | ⟨ho, -⟩)
      · exact hv
      · omega
    · exact fun hv => .inl ⟨hv, by omega⟩
  · intro o k n f hk hge hlt
    rw [hlist, hreplace]
    constructor
    · rintro (⟨hv, hne⟩ | ⟨ho, hkd, hn, hf⟩)
      · rcases view_cases hv with h1 | ⟨h1, -⟩ | h1
        · omega
        · exact absurd h1 hne
        · omega
      · obtain ⟨t, ht, hb⟩ := (hmark k hk).mp hkd
        refine ⟨t, ht, b.link, ?_⟩
        rw [ho, hn, hf, hsize, hbytes, hb]
        exact placed_mid done rest b
    · rintro ⟨t, ht, hv⟩
      rcases view_cases hv with h1 | ⟨h1, h2, h3, h4⟩ | h1
      · have := view_pos hs.rep hv
        omega
      · exact .inr ⟨h1, (hmark k hk).mpr ⟨t, ht, h2⟩, h3.trans hsize.symm, h4.trans hbytes.symm⟩
      · omega
  · intro c hc hck
    rw [hlist]
    rcases mem_append.mp hc with hc | hc
    · exact hhint _ (.inl (hs.hint c hc hck))
    · cases mem_singleton.mp hc
      exact hhint _ (.inr ⟨hck, rfl⟩)

/-- Where the free block will start that a release leaves. -/
theorem mergedStart_spec {pre' lead : List Block} (hr : Rep h (done ++ b :: rest))
    (hs : ∀ p ∈ done, Settled p) (hl : AbsorbsLeft (lastSize size 0 done) done pre' lead) :
    h.mergedStart (total size done) (lastSize size 0 done) = .ok (total size pre') := by
  unfold mergedStart
  rcases eq_nil_or_concat done with rfl | ⟨init, p, rfl⟩
  · rcases hl with ⟨rfl, -, -⟩ | ⟨q, hq, -⟩
    · rfl
    · simp at hq
  · rw [concat_eq_append] at hr hs hl ⊢
    have hsp := hs p (by simp)
    have hr' : Rep h (init ++ p :: b :: rest) := by simpa using hr
    have hlo := (hr'.ok p (by simp)).lo
    have ea := hr'.blockAllocated (placed_mid init (b :: rest) p) hsp.1
    have htotal : total size (init ++ [p]) = total size init + p.size := by simp
    have hlast : lastSize size 0 (init ++ [p]) = p.size := by simp
    rw [htotal, hlast, if_pos (by omega), checkedSub_ok (by omega), Nat.add_sub_cancel]
    simp only [ok_bind, ea, pure_eq_ok]
    rcases hl with ⟨rfl, -, hnf⟩ | ⟨q, hq, hqk, -⟩
    · have hpa : p.kind.allocated = true := by
        cases ha : p.kind.allocated with
        | true => rfl
        | false => exact absurd (hsp.free_of_not_allocated ha) (hnf rfl p (by simp))
      rw [hpa, if_pos rfl, htotal]
    · have hq' := append_inj' hq rfl
      obtain ⟨rfl, hqp⟩ := hq'
      simp only [cons.injEq, and_true] at hqp
      subst hqp
      rw [hqk]
      rfl

/-- The tag of the block at the cursor may change. -/
theorem Swept.setTag {v : Nat} {h' : Heap} (hs : Swept h₁ bs₁ h done (b :: rest))
    (hr : Rep h' (done ++ { b with link := v } :: rest)) (kept : Kept h h')
    (hhint : h'.largestFreeHint = h.largestFreeHint) : Swept h₁ bs₁ h' done ({ b with link := v } :: rest) := by
  refine ⟨hr, kept.format.trans hs.format, kept.size.trans hs.extent, ?_, hs.tagged, ?_, ?_,
    ?_, fun o k n f hk => ?_, fun c hc hck => (hs.hint c hc hck).replace hhint rfl (fun hk => hk)⟩
  · exact forall_mem_replace hs.settled (hs.settled b (by simp))
  · exact chain_replace hs.coalesced id
  · rw [kept.free, hs.totalFree]
    simp
  · rw [kept.live, hs.liveObjects]
    simp only [liveCount_append, liveCount_cons]
    rfl
  · rw [← hs.view o k n f hk, view_replace (d := { b with link := v }) hs.rep.size_pos rfl]
    constructor
    · rintro (⟨hv, -⟩ | ⟨rfl, rfl, rfl, rfl⟩)
      · exact hv
      · exact ⟨b.link, placed_mid done rest b⟩
    · intro hv
      by_cases ho : o = total size done
      · rcases view_cases hv with h1 | h1 | h1
        · have := view_pos hs.rep hv
          omega
        · exact .inr h1
        · have := (hs.rep.ok b (by simp)).lo
          omega
      · exact .inl ⟨hv, ho⟩

/-- No allocated block lies in the free neighbour that a release absorbs. -/
theorem view_trail {post' trail : List Block} {o n : Nat} {k : Kind} {f : Nat → UInt8}
    (hr : Rep h (done ++ b :: rest)) (hrt : AbsorbsRight rest post' trail) (hk : k.allocated = true)
    (hv : View (done ++ b :: rest) o k n f) (hge : total size done + b.size ≤ o) :
    total size done + b.size + total size trail ≤ o := by
  rcases hrt with ⟨-, rfl, -⟩ | ⟨q, rfl, hq, rfl⟩
  · simpa using hge
  · have hpos := view_pos hr hv
    have hlist : done ++ b :: q :: post' = (done ++ [b]) ++ q :: post' := by simp
    rw [hlist] at hv
    have htotal : total size (done ++ [b]) = total size done + b.size := by simp
    rcases view_cases hv with h1 | ⟨-, h1, -⟩ | h1
    · omega
    · rw [h1, hq] at hk
      cases hk
    · simpa using h1

/-- **Releasing the unmarked object at the cursor.** -/
theorem Swept.release {t : Nat} (hs : Swept h₁ bs₁ h done (b :: rest)) (hk : b.kind = .live t false)
    (hlink : b.link = lastSize size 0 done) :
    ∃ h' merged ref done' rest', Ref32.managed (total size done + 8) = some ref ∧
      h.mergedStart (total size done) (lastSize size 0 done) = .ok merged ∧
      h.free ref = .ok (h', true) ∧ h'.blockSize merged = .ok (lastSize size 0 done') ∧
      merged + lastSize size 0 done' = total size done' ∧
      rest'.length ≤ rest.length ∧ Swept h₁ bs₁ h' done' rest' := by
  have ha : b.kind.allocated = true := by
    rw [hk]
    rfl
  have hbl : isLive b = true := by
    unfold isLive
    rw [hk]
  have hlo := (hs.rep.ok b (by simp)).lo
  obtain ⟨ref, eref, hbits⟩ := exists_reference hs.rep (placed_mid done rest b)
  obtain ⟨elive, hdom⟩ := liveBlock_ok hs.rep hk hbits
  have hcount : 1 ≤ h.liveObjects := by
    rw [hs.liveObjects]
    simp [hbl]
    omega
  have hsettled := forall_mem_remove hs.settled
  have htag : Tagged size Block.link 0 (done ++ [b]) := by
    rw [tagged_append]
    exact ⟨hs.tagged, hlink, trivial⟩
  have hbound : h.totalFree + b.size < 2 ^ 32 := hs.totalFree ▸ hs.rep.freeBytes_lt (Kind.ne_free ha)
  obtain ⟨h', pre', lead, trail, post', bytes, hl, hrt, efree, kept, hr', hhint⟩ :=
    freeBlock_spec (h := { h with liveObjects := h.liveObjects - 1 })
      (hs.rep.setCounts h.totalFree (h.liveObjects - 1)) ha hsettled (fun _ => .inl hlink) hbound
  obtain ⟨-, hpre⟩ := hl.lead_kind
  have hlist : ∀ d, pre' ++ [d] ++ tagHead (total size (lead ++ b :: trail)) post' =
      pre' ++ d :: tagHead (total size (lead ++ b :: trail)) post' := fun d => by simp
  have hmerged : total size (lead ++ b :: trail) =
      total size lead + b.size + total size trail := by simp [Nat.add_assoc]
  have hcursor : ∀ d : Block, d.size = total size (lead ++ b :: trail) →
      total size (pre' ++ [d]) = total size done + b.size + total size trail := by
    intro d hd
    rw [total_append, total_cons, total_nil, hd, hmerged]
    omega
  have hview : ∀ o k n f, k.allocated = true → (View (released pre' lead b trail post' bytes) o k n f ↔
      View (done ++ b :: rest) o k n f ∧ o ≠ total size done) :=
    fun o k n f hk' => released_view hrt hl hs.rep.size_pos hk'
  refine ⟨h', total size pre', ref, pre' ++ [⟨total size (lead ++ b :: trail), .free,
    (lead.headD b).link, bytes⟩], tagHead (total size (lead ++ b :: trail)) post', eref,
    mergedStart_spec hs.rep (fun p hp => hs.settled p (by simp [hp])) (hlink ▸ hl), ?_, ?_, ?_, ?_, ?_⟩
  · simp only [free, hdom, ne_eq, not_true_eq_false, if_false, elive, checkedSub_ok hcount, ok_bind,
      efree, pure_eq_ok]
  · rw [lastSize_append]
    exact hr'.blockSize (placed_mid _ _ _) (by simp)
  · simp
  · rw [length_tagHead]
    rcases hrt with ⟨rfl, -, -⟩ | ⟨q, rfl, -, -⟩
    · exact Nat.le_refl _
    · exact Nat.le_succ _
  · have hchain := isChain_append.mp hs.coalesced
    refine ⟨by rw [hlist]; exact hr', kept.format.trans hs.format, kept.size.trans hs.extent, ?_, ?_,
      ?_, ?_, ?_, hs.view_step (by rw [hcursor _ rfl]; omega) ?_ ?_, ?_⟩
    · rw [hlist]
      exact forall_mem_released (P := fun k => k ≠ .hole ∧ k ≠ .detached) hrt hl hsettled (by simp)
    · rw [tagged_append]
      exact ⟨hl.tagged hs.tagged, hl.headD_link htag, trivial⟩
    · rw [hlist]
      exact released_coalesced hrt hl hlink hchain.1 (isChain_cons.mp hchain.2.1).2
    · rw [hlist, kept.free]
      exact (congrArg (· + b.size) hs.totalFree).trans (released_freeBytes hrt hl ha).symm
    · have hlc := released_liveCount hrt hl b bytes
      rw [hlist, kept.live]
      rw [hbl, if_pos rfl, ← hs.liveObjects] at hlc
      show h.liveObjects - 1 = liveCount (released pre' lead b trail post' bytes)
      omega
    · intro o k n f hk' hoff
      rw [hcursor _ rfl] at hoff
      rw [hlist]
      show View (released pre' lead b trail post' bytes) o k n f ↔ _
      rw [hview o k n f hk']
      exact ⟨And.left, fun hv => ⟨hv, by omega⟩⟩
    · -- nothing that is allocated survives between the old cursor and the new one
      intro o k n f hk' hge hlt
      rw [hcursor _ rfl] at hlt
      rw [hlist]
      show View (released pre' lead b trail post' bytes) o k n f ↔ _
      rw [hview o k n f hk']
      constructor
      · rintro ⟨hv, hne⟩
        rcases view_cases hv with h1 | ⟨h1, -⟩ | h1
        · omega
        · exact absurd h1 hne
        · have := view_trail hs.rep hrt hk' hv h1
          omega
      · rintro ⟨t', -, hv⟩
        rcases view_cases hv with h1 | ⟨-, h1, -⟩ | h1
        · have := view_pos hs.rep hv
          omega
        · rw [hk] at h1
          cases h1
        · have := view_trail hs.rep hrt rfl hv h1
          omega
    · intro c hc hck
      rw [hlist]
      rcases mem_append.mp hc with hc | hc
      · exact hhint _ (.inl (hs.hint c (hl.mem hc) hck))
      · cases mem_singleton.mp hc
        exact hhint _ (.inr (Nat.le_refl _))

/-- **One sweep step.**  It fails only at a block that is still reserved. -/
theorem sweepBlock_spec (hs : Swept h₁ bs₁ h done (b :: rest)) :
    (b.kind = .reserved ∧ h.sweepBlock (total size done) (lastSize size 0 done) = .error .corruptHeap) ∨
    ∃ h' done' rest', h.sweepBlock (total size done) (lastSize size 0 done) =
        .ok (h', total size done', lastSize size 0 done') ∧
      rest'.length ≤ rest.length ∧ Swept h₁ bs₁ h' done' rest' := by
  have hb := hs.settled b (by simp)
  have he := placed_mid done rest b
  have hlo := (hs.rep.ok b (by simp)).lo
  have htotal := hs.rep.total_mid
  have hsmall := hs.rep.small
  have hbounds := hs.rep.lastSize_bounds
  have hlt : lastSize size 0 done < nullOffset := by
    unfold nullOffset
    omega
  -- the tag is repaired first
  obtain ⟨h2, e2, kept2, hint2, hr2⟩ := hs.rep.setLink (.inr hbounds)
  rw [storedLink_of_lt hlt] at hr2
  have hs2 := hs.setTag hr2 kept2 hint2
  have he2 := placed_mid done rest { b with link := lastSize size 0 done }
  have hnext : checkedAdd (total size done) b.size = .ok (total size done + b.size) :=
    checkedAdd_ok (by omega)
  have hcursor : ∀ d : Block, d.size = b.size → total size (done ++ [d]) =
      total size done + b.size ∧ lastSize size 0 (done ++ [d]) = b.size := by
    intro d hd
    simp [hd]
  unfold sweepBlock
  rw [if_neg (show ¬ total size done ≥ h.arenaBytes by omega)]
  simp only [hs.rep.blockSize he hb.1, ok_bind, e2, hr2.blockAllocated he2 hb.1]
  rcases hk : b.kind with _ | _ | _ | _ | ⟨t, _ | _⟩
  · -- a free block stays
    obtain ⟨h3, e3, kept3, hr3, hnew, hold⟩ := hr2.observe hk
    have hc := hcursor { b with link := lastSize size 0 done } rfl
    refine .inr ⟨h3, done ++ [{ b with link := lastSize size 0 done }], rest, ?_, Nat.le_refl _, ?_⟩
    · simp only [allocated, Bool.not_false, if_true, e3, ok_bind, hnext, pure_eq_ok]
      rw [hc.1, hc.2]
    · refine hs2.advance hr3 kept3 rfl Iff.rfl rfl hb rfl (fun k hka => ?_) rfl ?_
      · rw [hk]
        constructor
        · rintro rfl
          cases hka
        · rintro ⟨t, -, ht⟩
          cases ht
      · rintro k (hk | ⟨-, rfl⟩)
        · exact hold k hk
        · exact hnew
  · exact absurd hk hb.2
  · exact absurd hk hb.1
  · refine .inl ⟨rfl, ?_⟩
    simp only [hr2.readFlags he2 hb.1, hk, allocated, flags, ok_bind]
    rfl
  · -- an unmarked object is released
    obtain ⟨h3, merged, ref, done', rest', eref, em, ef, es, hsum, hlt', hs3⟩ := hs2.release hk rfl
    refine .inr ⟨h3, done', rest', ?_, hlt', hs3⟩
    have hf : ¬ (live t false).flags &&& LIVE = 0 := by
      simp [flags, ALLOCATED, LIVE]
    have hm : ¬ (live t false).flags &&& MARKED ≠ 0 := by
      simp [flags, ALLOCATED, LIVE, MARKED]
    have hadd : checkedAdd (total size done) OBJECT_TYPE_ID =
        .ok (total size done + 8) := checkedAdd_ok (by
          unfold OBJECT_TYPE_ID blockHeaderBytes
          omega)
    have hle := hs3.rep.tiles
    rw [total_append] at hle
    have hsmall3 := hs3.rep.small
    have hfinal : checkedAdd merged (lastSize size 0 done') = .ok (total size done') := by
      rw [checkedAdd_ok (by omega), hsum]
    simp only [hr2.readFlags he2 hb.1, hk, allocated, Bool.not_true, Bool.false_eq_true, if_false,
      ok_bind, if_neg hf, if_neg hm, hr2.readPreviousOrGray he2 hb.1, em, hadd, eref, okOrCorrupt, ef,
      es, hfinal, pure_eq_ok]
  · -- a marked object stays, without its mark
    have hf : ¬ (live t true).flags &&& LIVE = 0 := by
      simp [flags, ALLOCATED, LIVE, MARKED]
    have hm : (live t true).flags &&& MARKED ≠ 0 := by
      simp [flags, ALLOCATED, LIVE, MARKED]
    have hflags : (live t true).flags &&& Bits.complement 32 MARKED = (live t false).flags := by
      simp only [flags]
      decide
    have htype := (hr2.stored _ he2).type t true hk
    obtain ⟨h3, e3, kept3, hint3, hr3⟩ := hr2.setFlags (k := .live t false) (by rw [hk]; rfl) rfl (by
      rintro t' m' heq
      cases heq
      exact htype)
    have hc := hcursor ⟨b.size, .live t false, lastSize size 0 done, b.bytes⟩ rfl
    refine .inr ⟨h3, done ++ [⟨b.size, .live t false, lastSize size 0 done, b.bytes⟩], rest, ?_,
      Nat.le_refl _, ?_⟩
    · simp only [hr2.readFlags he2 hb.1, hk, allocated, Bool.not_true, Bool.false_eq_true, if_false,
        ok_bind, if_neg hf, if_pos hm, hflags, e3, hnext, pure_eq_ok]
      rw [hc.1, hc.2]
    · refine hs2.advance hr3 kept3 rfl (by simp [hk]) ?_ (by simp [Settled]) rfl (fun k hka => ?_) rfl ?_
      · unfold isLive
        rw [hk]
      · rw [hk]
        constructor
        · rintro rfl
          exact ⟨t, rfl, rfl⟩
        · rintro ⟨t', rfl, ht⟩
          cases ht
          rfl
      · rintro k (hc | ⟨hfree, -⟩)
        · exact hc.replace hint3 rfl (fun hfree => by rw [hk] at hfree; cases hfree)
        · cases hfree

end Step

end Compukter.Heap
