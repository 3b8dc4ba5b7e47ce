/-
Construction, allocation and release keep the heap well formed.

Each lemma runs one operation on a well-formed heap: it SUCCEEDS, and the new list of blocks is
given explicitly.  `placed_split` turns "there is a block at this offset" into a division of the
list around it, which is the form the steps of the previous modules work on.
-/
import Compukter.Heap.Invariant

namespace Compukter.Heap

open Bytes Bits Fallible Tiling List
open Block (size)

theorem placed_split {bs : List Block} {o : Nat} {b : Block} (he : (o, b) ∈ placed bs) :
    ∃ pre post, bs = pre ++ b :: post ∧ o = total size pre := by
  obtain ⟨pre, post, hbs, ho⟩ := mem_place.mp he
  exact ⟨pre, post, hbs, by rw [← Nat.zero_add (total _ pre)]; exact ho⟩

section

variable {g : Grade} {h : Heap} {pre post bs : List Block} {b : Block}

/-- Replacing a block by one with the same size and tag keeps tags and totals. -/
theorem Tidy.replace {b' : Block} (ht : Tidy g (pre ++ b :: post)) (hs : Settled b')
    (hsize : b'.size = b.size) (hlink : b'.link = b.link) (hk : b'.kind ≠ .free) : Tidy g (pre ++ b' :: post) := by
  refine ⟨?_, ?_, fun hstrict => ?_⟩
  · exact forall_mem_replace ht.settled hs
  · intro htags
    obtain ⟨first, hfirst, htag⟩ := ht.tagged htags
    refine ⟨first, hfirst, ?_⟩
    rw [tagged_append, tagged_cons] at htag ⊢
    rw [hsize, hlink]
    exact htag
  · exact chain_replace (ht.coalesced hstrict) fun hfree => absurd hfree hk

/-! ## Construction -/

open Ref32

section

variable {format : HeaderFormat} {n : Nat} (hlo : 32 ≤ n) (h16 : n % 16 = 0) (hhi : n ≤ maxPayload)
  (hfits : format.Fits n)
include hlo h16 hhi hfits

/-- A fresh arena is one hole with empty lists. -/
theorem rep_fresh (arena : Memory) :
    Rep ⟨format, arena, n / 16, n, fun _ => nullOffset, 0, fun _ => 0, nullOffset, n, 0⟩ [holeOf n] := by
  have hshape : Shaped ⟨format, arena, n / 16, n, fun _ => nullOffset, 0, fun _ => 0, nullOffset,
      n, 0⟩ := ⟨by dsimp only; omega, hhi, hfits⟩
  have hno : ∀ o m, ¬ freeIn [holeOf n] o m := by
    rintro o m ⟨c, hc, hk, -⟩
    simp only [placed, place_cons, place_nil, mem_singleton, Prod.mk.injEq] at hc
    rw [hc.2] at hk
    cases hk
  refine ⟨hshape, by simp [holeOf], ?_, ?_, fun _ => [], ?_⟩
  · intro c hc
    rw [mem_singleton.mp hc]
    exact holeOf_ok (by omega) (by omega)
  · intro e he
    simp only [placed, place_cons, place_nil, mem_singleton] at he
    rw [he]
    exact blockAt_hole _ _ _
  · refine ⟨hshape, fun hx => absurd hx (hno _ _), fun hx => absurd hx (hno _ _),
      fun hx => absurd hx (hno _ _), fun hx => absurd hx (hno _ _), ?_, fun _ => nodup_nil,
      fun _ _ => rfl, fun _ => trivial, ?_, .inl rfl⟩
    · intro c o
      simp [hno]
    · refine ⟨?_, fun _ _ => Nat.two_pow_pos 8, ?_, Nat.two_pow_pos 32⟩
      · simp
      · simp

theorem new_spec : ∃ h bytes, Heap.new ⟨format, n⟩ = .ok h ∧ h.headerFormat = format ∧ h.arenaBytes = n ∧
      WellFormed h [⟨n, .free, 0, bytes⟩] := by
  have hr0 := rep_fresh hlo h16 hhi hfits (fun _ => 0)
  obtain ⟨h1, bytes, e1, kept1, -, hr1⟩ := Rep.writeHeader 0 false
    (show Rep _ ([] ++ [holeOf n] ++ []) from hr0) (by simp) (by simp [holeOf]) (hr0.shaped.tag rfl (by dsimp only; omega))
  simp only [nil_append, total_nil, total_cons, holeOf, Nat.add_zero] at e1 hr1
  obtain ⟨h2, e2, kept2, hr2, -⟩ := @Rep.attach h1 [] [] _ hr1 rfl
  have kept := kept1.trans kept2
  refine ⟨h2, bytes, ?_, kept.format, kept.size, hr2, ⟨?_, ?_, ?_⟩, ?_, ?_, ?_⟩
  · unfold maxPayload at hhi
    simp only [Heap.new]
    rw [if_neg (by omega), if_neg (by unfold maxPayload; omega)]
    rw [total_nil] at e2
    simp only [e1, e2]
    rfl
  · simp [Settled]
  · exact fun _ => ⟨0, fun _ => rfl, rfl, trivial⟩
  · exact fun _ => .singleton _
  · simp [Clean]
  · rw [kept.free]
    simp
  · rw [kept.live]
    simp [isLive]

end

/-! ## Release -/

/-- A block starts here: the sizes in the headers lead here. -/
inductive Starts (h : Heap) : Nat → Prop
  | first : Starts h 0
  | next {o n : Nat} : Starts h o → h.blockSize o = .ok n → Starts h (o + n)

/-- The block at `o` may be released: it is the first one, or its predecessor field leads to a header that is
allocated, so that nothing is merged, or is the size of the block that ends at `o`. -/
def Releasable (h : Heap) (o : Nat) : Prop :=
  o = 0 ∨ ∃ v, h.readPreviousOrGray o = .ok v ∧ v ≤ o ∧ (h.blockAllocated (o - v) = .ok true ∨
    ∀ p n, h.Starts p → h.blockSize p = .ok n → p + n = o → v = n)

theorem Rep.starts (hr : Rep h (pre ++ post)) (hs : ∀ c ∈ pre ++ post, Settled c) : h.Starts (total size pre) := by
  induction pre using reverseRecOn generalizing post with
  | nil => exact .first
  | append_singleton init p ih =>
    rw [append_assoc] at hr hs
    rw [total_append]
    exact (ih hr hs).next (hr.blockSize (placed_mid init post p) (hs p (by simp)).1)

theorem Sound.backed (hw : Sound g h (pre ++ b :: post)) (hback : g.tagged ∨ h.Releasable (total size pre))
    (hne : pre ≠ []) : h.Backed pre b := by
  have hr := hw.rep
  have hs := hw.tidy.settled
  obtain ⟨init, p, rfl, hlast⟩ := exists_append_last size hne 0
  rw [Backed, hlast]
  rcases hback with htags | hzero | ⟨v, hv, hle, hback⟩
  · obtain ⟨_, -, htag⟩ := hw.tidy.tagged htags
    exact .inl ((tagged_append.mp htag).2.1.trans (by simp))
  · have := hr.size_pos p (by simp)
    simp only [total_append, total_cons] at hzero
    omega
  · rw [hr.readPreviousOrGray (placed_mid _ post b) (hs b (by simp)).1] at hv
    cases hv
    refine hback.symm.imp (fun hends => ?_) fun ha => ⟨hle, ha⟩
    rw [append_assoc] at hr hs
    exact hends _ _ (hr.starts hs) (hr.blockSize (placed_mid init _ p) (hs p (by simp)).1) (by simp)

/-- Releasing an allocated block; a live one is no longer counted by the caller. -/
theorem Sound.freeBlock (hr : Rep h (pre ++ b :: post)) (ht : Tidy g (pre ++ b :: post))
    (hm : g.strict → ∀ c ∈ pre ++ b :: post, Clean c.kind) (hfree : h.totalFree = freeBytes (pre ++ b :: post))
    (hlive : h.liveObjects + (if isLive b then 1 else 0) = liveCount (pre ++ b :: post))
    (ha : b.kind.allocated = true) (hback : pre ≠ [] → h.Backed pre b) :
    ∃ h' bs', h.freeBlock (total size pre) = .ok h' ∧ h'.headerFormat = h.headerFormat ∧
      Sound g h' bs' ∧ (∀ o k n f, k.allocated = true →
        (View bs' o k n f ↔ View (pre ++ b :: post) o k n f ∧ o ≠ total size pre)) ∧
      h'.totalFree = h.totalFree + b.size ∧ h'.liveObjects = h.liveObjects := by
  have hsettled := forall_mem_remove ht.settled
  obtain ⟨h', pre', lead, trail, post', bytes, hl, hrt, e, kept, hr', -⟩ :=
    freeBlock_spec hr ha hsettled hback (hfree ▸ hr.freeBytes_lt (Kind.ne_free ha))
  refine ⟨h', released pre' lead b trail post' bytes, e, kept.format,
    ⟨hr', ⟨?_, ?_, fun hstrict => ?_⟩, fun hstrict => ?_, ?_, ?_⟩,
    fun o k n f hk => released_view hrt hl hr.size_pos hk, kept.free, kept.live⟩
  · exact forall_mem_released (P := fun k => k ≠ .hole ∧ k ≠ .detached) hrt hl hsettled (by simp)
  · intro htags
    obtain ⟨first, hfirst, htag⟩ := ht.tagged htags
    rw [append_cons, tagged_append] at htag
    obtain ⟨p', hp'⟩ := hrt.tagged htag.2
    refine ⟨first, hfirst, ?_⟩
    rw [released, tagged_append, tagged_cons]
    exact ⟨hl.tagged (tagged_append.mp htag.1).1, hl.headD_link htag.1, tagged_tagHead hp'⟩
  · have hchain := isChain_append.mp (ht.coalesced hstrict)
    exact released_coalesced hrt hl (tagged_append.mp (ht.tagged_zero hstrict)).2.1 hchain.1
      (isChain_cons.mp hchain.2.1).2
  · exact forall_mem_released (P := Clean) hrt hl (forall_mem_remove (hm hstrict)) (by simp [Clean])
  · rw [kept.free, released_freeBytes hrt hl ha, ← hfree]
  · rw [kept.live]
    have := released_liveCount hrt hl b bytes
    dsimp only
    omega

/-! ## Reservation -/

/-- The blocks that a request turns a free block into. -/
def carved (b : Block) (requested : Nat) (bytes bytes' : Nat → UInt8) (post : List Block) : List Block :=
  if b.size - requested ≥ 16 then
    ⟨requested, .reserved, b.link, bytes⟩ ::
      ⟨b.size - requested, .free, requested, bytes'⟩ :: tagHead (b.size - requested) post
  else ⟨b.size, .reserved, b.link, bytes⟩ :: post

variable {r : Nat}

/-- The part of a reservation after the block was found: unlist it, cut off the rest, write its
header. -/
theorem carve_spec (hr : Rep h (pre ++ b :: post)) (hk : b.kind = .free)
    (hr16 : 16 ≤ r) (hr8 : r % 8 = 0) (hle : r ≤ b.size) :
    ∃ h1 h2 h3 n bytes bytes', h.removeFree (total size pre) = .ok h1 ∧
      h1.splitRemainder (total size pre) b.size r = .ok (h2, n) ∧
      h2.writeHeader (total size pre) n b.link true = .ok h3 ∧ Kept h h3 ∧
      n = (if b.size - r ≥ 16 then r else b.size) ∧ Rep h3 (pre ++ carved b r bytes bytes' post) := by
  have htag := hr.tag (placed_mid pre post b) (by simp [hk])
  have hok := hr.ok b (by simp)
  have hal := hok.aligned
  have htotal := hr.total_mid
  have hsmall := hr.small
  obtain ⟨h1, e1, kept1, hr1, -⟩ := hr.detach hk
  by_cases hrem : b.size - r ≥ 16
  · -- the block is blurred into the requested part and the rest
    have hr1' : Rep h1 ((pre ++ [holeOf r]) ++ [holeOf (b.size - r)] ++ post) := by
      have hlist : pre ++ { b with kind := .detached } :: post =
          pre ++ [{ b with kind := .detached }] ++ post := by simp
      rw [hlist] at hr1
      have := hr1.blur [r, b.size - r] (by simp) (by
        intro n hn
        simp only [mem_cons, not_mem_nil, or_false] at hn
        omega) (by simp [holeOf]; omega)
      simpa using this
    have hbytes1 := kept1.size
    obtain ⟨h2, h3, h4, bytes', e2, e3, e4, kept4, hr4, -⟩ := finishFree_spec r hr1'
      (by simp) (by simp [holeOf]) (hr1'.shaped.tag hr8 (by omega))
    simp only [total_append, total_cons, total_nil, holeOf, Nat.add_zero] at e2 e3 e4 hr4
    have hr4' : Rep h4 (pre ++ [holeOf r] ++ ⟨b.size - r, .free, r, bytes'⟩ :: tagHead (b.size - r) post) := hr4
    obtain ⟨h5, bytes, e5, kept5, -, hr5⟩ := hr4'.writeHeader b.link true (by simp)
      (by simp [holeOf]) ((kept1.trans kept4).format ▸ htag)
    refine ⟨h1, h4, h5, r, bytes, bytes', e1, ?_, e5, (kept1.trans kept4).trans kept5, by rw [if_pos hrem], ?_⟩
    · have hrem' : b.size - r ≥ minimumBlockBytes := hrem
      simp only [splitRemainder]
      rw [if_pos hrem']
      simp only [checkedAdd_ok (show total size pre + r < 2 ^ 32 by omega), ok_bind, e2, e3, e4, pure_eq_ok]
    · rw [carved, if_pos hrem]
      exact hr5
  · have hlist : pre ++ { b with kind := .detached } :: post =
        pre ++ [{ b with kind := .detached }] ++ post := by simp
    rw [hlist] at hr1
    obtain ⟨h2, bytes, e2, kept2, -, hr2⟩ := hr1.writeHeader b.link true (by simp) (by simp) (kept1.format ▸ htag)
    refine ⟨h1, h1, h2, b.size, bytes, fun _ => 0, e1, ?_, e2, kept1.trans kept2, by rw [if_neg hrem], ?_⟩
    · have hrem' : ¬ b.size - r ≥ minimumBlockBytes := hrem
      simp only [splitRemainder]
      rw [if_neg hrem']
    · rw [carved, if_neg hrem]
      exact hr2

theorem forall_mem_carved {P : Kind → Prop} {r : Nat} {bytes bytes' : Nat → UInt8}
    (h : ∀ c ∈ pre ++ b :: post, P c.kind) (hreserved : P .reserved) (hfree : P .free) :
    ∀ c ∈ pre ++ carved b r bytes bytes' post, P c.kind := by
  rw [forall_mem_append, forall_mem_cons] at h
  unfold carved
  split <;> simp only [forall_mem_append, forall_mem_cons]
  · exact ⟨h.1, hreserved, hfree, forall_mem_tagHead h.2.2⟩
  · exact ⟨h.1, hreserved, h.2.2⟩

variable {bytes bytes' : Nat → UInt8}

theorem carved_tidy (ht : Tidy g (pre ++ b :: post))
    (hk : b.kind = .free) : Tidy g (pre ++ carved b r bytes bytes' post) := by
  have hsettled : ∀ c ∈ pre ++ carved b r bytes bytes' post, Settled c :=
    forall_mem_carved (P := fun k => k ≠ .hole ∧ k ≠ .detached) ht.settled (by simp) (by simp)
  unfold carved at hsettled ⊢
  split
  case isTrue hsplit =>
    rw [if_pos hsplit] at hsettled
    refine ⟨hsettled, ?_, fun hstrict => ?_⟩
    · intro htags
      obtain ⟨first, hfirst, htag⟩ := ht.tagged htags
      have htag := tagged_append.mp htag
      refine ⟨first, hfirst, ?_⟩
      rw [tagged_append, tagged_cons, tagged_cons]
      exact ⟨htag.1, htag.2.1, rfl, tagged_tagHead htag.2.2⟩
    · have hchain := isChain_append.mp (ht.coalesced hstrict)
      have hpost := isChain_cons.mp hchain.2.1
      rw [isChain_append, isChain_cons, isChain_cons]
      refine ⟨hchain.1, ⟨?_, ?_, chain_tagHead hpost.2⟩, ?_⟩
      · intro q _ hb
        exact absurd hb.1 (by simp)
      · intro q hq hb
        obtain ⟨d, hd, hdk⟩ := head?_tagHead hq
        exact hpost.1 d hd ⟨hk, hdk ▸ hb.2⟩
      · intro p _ q hq hb
        simp only [head?_cons, Option.mem_some_iff] at hq
        rw [← hq] at hb
        exact absurd hb.2 (by simp)
  case isFalse => exact ht.replace (by simp [Settled]) rfl rfl (by simp)

theorem carved_counts (pre post : List Block) (bytes bytes' : Nat → UInt8) (hk : b.kind = .free) (hle : r ≤ b.size) :
    freeBytes (pre ++ carved b r bytes bytes' post) + (if b.size - r ≥ 16 then r else b.size) =
      freeBytes (pre ++ b :: post) ∧
    liveCount (pre ++ carved b r bytes bytes' post) = liveCount (pre ++ b :: post) := by
  unfold carved
  split
  · simp [hk, isLive]
    omega
  · simp [hk, isLive]
    omega

theorem carved_view (hk : b.kind = .free) (hle : r ≤ b.size)
    {o : Nat} {k : Kind} {n : Nat} {f : Nat → UInt8} (hka : k.allocated = true) :
    View (pre ++ carved b r bytes bytes' post) o k n f ↔ View (pre ++ b :: post) o k n f ∨
      (o = total size pre ∧ k = .reserved ∧ n = (if b.size - r ≥ 16 then r else b.size) ∧ f = bytes) := by
  have hkf := Kind.ne_free hka
  have hold : View (pre ++ b :: post) o k n f ↔ (∃ v, (o, Block.mk n k v f) ∈ placed pre) ∨
      ∃ v, (o, Block.mk n k v f) ∈ place size (total size pre + b.size) post := by
    unfold View
    simp only [mem_placed_mid, exists_or]
    constructor
    · rintro (hv | ⟨v, hv⟩ | hv)
      · exact .inl hv
      · rw [Prod.mk.injEq] at hv
        rw [← hv.2] at hk
        exact absurd hk hkf
      · exact .inr hv
    · rintro (hv | hv)
      · exact .inl hv
      · exact .inr (.inr hv)
  rw [hold]
  unfold carved
  split
  · rename_i hrem
    have hoff : total size pre + r + (b.size - r) = total size pre + b.size := by omega
    unfold View
    simp only [mem_placed_mid, place_cons, mem_cons, exists_or, hoff, view_place_tagHead,
      Prod.mk.injEq, Block.mk.injEq, hkf, false_and, and_false, false_or, exists_and_left, exists_eq_left]
    rw [← or_assoc, or_right_comm, and_left_comm (b := k = _)]
  · unfold View
    simp only [mem_placed_mid, exists_or, Prod.mk.injEq, Block.mk.injEq, exists_and_left, exists_eq_left]
    rw [← or_assoc, or_right_comm, and_left_comm (b := k = _)]

/-- **Reservation.** Nothing changes, or one free block becomes a reserved block at least as large
as the request. -/
theorem reserve_spec {r t : Nat} (hw : Sound g h bs) (hv : ValidSize r) : h.reserve ⟨r, t⟩ = .ok (h, none) ∨
    ∃ h' bs' o n f, h.reserve ⟨r, t⟩ = .ok (h', some ⟨o, t⟩) ∧ Sound g h' bs' ∧
      h'.headerFormat = h.headerFormat ∧ r ≤ n ∧ (∀ k m g, k.allocated = true → ¬ View bs o k m g) ∧
      (∀ o' k m g, k.allocated = true → (View bs' o' k m g ↔
        View bs o' k m g ∨ (o' = o ∧ k = .reserved ∧ m = n ∧ g = f))) ∧
      h'.totalFree + n = h.totalFree ∧ h'.liveObjects = h.liveObjects := by
  have hlo := hv.lo
  have hal := hv.aligned
  obtain ⟨L, hl⟩ := hw.rep.lists
  have hfind := findSuitable_spec hl hv
  cases hres : h.findSuitable r with
  | error =>
    rw [hres] at hfind
    exact hfind.elim
  | ok found =>
    cases found with
    | none =>
      refine .inl ?_
      simp only [reserve, hres, ok_bind, pure_eq_ok]
      rw [if_neg (by unfold minimumBlockBytes blockAlignment; omega)]
    | some =>
      rw [hres] at hfind
      obtain ⟨n, ⟨b, he, hk, hn⟩, hle⟩ := hfind
      subst hn
      obtain ⟨pre, post, rfl, rfl⟩ := placed_split he
      have hhole : b.kind ≠ .hole := by simp [hk]
      obtain ⟨h1, h2, h3, n, bytes, bytes', e1, e2, e3, kept, hneq, hr3⟩ :=
        carve_spec hw.rep hk hv.lo hv.aligned hle
      obtain ⟨hfb, hlc⟩ := carved_counts pre post bytes bytes' hk hle
      have hsub : checkedSub h3.totalFree n = .ok (freeBytes (pre ++ carved b r bytes bytes' post)) := by
        rw [kept.free, hw.totalFree, checkedSub_ok (by omega)]
        congr 1
        omega
      refine .inr ⟨{ h3 with totalFree := freeBytes (pre ++ carved b r bytes bytes' post) },
        pre ++ carved b r bytes bytes' post, total size pre, n, bytes, ?_, ⟨?_, ?_, ?_, ?_, ?_⟩,
        kept.format, ?_, ?_, fun o' k m g hka => ?_, ?_, kept.live⟩
      · simp only [reserve, hres, ok_bind, hw.rep.blockSize he hhole,
          hw.rep.readPreviousOrGray he hhole, e1, e2, e3, hsub, pure_eq_ok]
        rw [if_neg (by unfold minimumBlockBytes blockAlignment; omega), if_neg (Nat.not_lt.mpr hle)]
      · exact hr3.setCounts _ h3.liveObjects
      · exact carved_tidy hw.tidy hk
      · exact fun hstrict => forall_mem_carved (P := Clean) (hw.clean hstrict) nofun nofun
      · rfl
      · rw [kept.live, hw.liveObjects, hlc]
      · rw [hneq]
        split
        · exact Nat.le_refl r
        · exact hle
      · rintro k m g hka ⟨v, hv'⟩
        have := hw.rep.unique he hv'
        rw [this] at hk
        dsimp only at hk
        rw [hk] at hka
        cases hka
      · rw [hneq]
        exact carved_view hk hle hka
      · rw [hw.totalFree, hneq]
        exact hfb

/-! ## Commit, abort and free -/

variable {t : Nat}

theorem validateReservation_ok (hw : Sound g h (pre ++ b :: post))
    (hk : b.kind = .reserved) : h.validateReservation ⟨total size pre, t⟩ = .ok () := by
  have he := placed_mid pre post b
  have hhole : b.kind ≠ .hole := by simp [hk]
  simp only [validateReservation, hw.rep.blockAllocated he hhole, hw.rep.readFlags he hhole, hk,
    ok_bind, Kind.allocated, Kind.flags]
  rfl

theorem view_replace {d : Block} (hpos : ∀ c ∈ pre ++ b :: post, 0 < c.size)
    (hsize : d.size = b.size) {o : Nat} {k : Kind} {n : Nat} {f : Nat → UInt8} :
    View (pre ++ d :: post) o k n f ↔ (View (pre ++ b :: post) o k n f ∧ o ≠ total size pre) ∨
      (o = total size pre ∧ k = d.kind ∧ n = d.size ∧ f = d.bytes) := by
  have hplaced (v : Nat) : (o, Block.mk n k v f) ∈ placed (pre ++ d :: post) ↔
      ((o, Block.mk n k v f) ∈ placed (pre ++ b :: post) ∧ o ≠ total size pre) ∨
        (o, Block.mk n k v f) = (total size pre, d) := by
    rw [mem_placed_mid, hsize, or_left_comm, or_comm]
    exact or_congr_left (placed_elsewhere hpos).symm
  simp only [View, hplaced, exists_or, exists_and_right]
  refine or_congr_right ⟨?_, ?_⟩
  · rintro ⟨v, hv⟩
    cases hv
    exact ⟨rfl, rfl, rfl, rfl⟩
  · rintro ⟨rfl, rfl, rfl, rfl⟩
    exact ⟨d.link, rfl⟩

theorem commit_spec (hw : Sound g h (pre ++ b :: post)) (hk : b.kind = .reserved)
    (ht : t < h.headerFormat.typeLimit) (ht32 : t < 2 ^ 32) : ∃ h' ref, h.commit ⟨total size pre, t⟩ = .ok (h', ref) ∧
      ref.bits = total size pre + 8 ∧ h'.headerFormat = h.headerFormat ∧
      Sound g h' (pre ++ { b with kind := .live t false } :: post) := by
  obtain ⟨h1, e1, kept1, hr1, htype⟩ := hw.rep.setType hk ht ht32
  have he := placed_mid pre post b
  have hhole : b.kind ≠ .hole := by simp [hk]
  obtain ⟨h2, e2, kept2, -, hr2⟩ := hr1.setFlags (k := .live t false) (by rw [hk]; rfl) rfl (fun t' m heq => by
      cases heq
      exact htype)
  have hflags : Kind.reserved.flags ||| LIVE = (Kind.live t false).flags := rfl
  have hlive : h2.liveObjects + 1 < 2 ^ 32 := by
    have h1 := liveCount_le hw.rep.ok
    have h2 := hw.rep.tiles
    have h3 := hw.rep.small
    rw [kept2.live, kept1.live, hw.liveObjects]
    omega
  have htotal := hw.rep.total_mid
  have hlo := (hw.rep.ok b (by simp)).lo
  have hsmall := hw.rep.small
  obtain ⟨ref, eref, hbits⟩ := exists_managed
    (p := total size pre + 8) (by omega) (by unfold maxPayload; omega)
  refine ⟨{ h2 with liveObjects := h2.liveObjects + 1 }, ref, ?_, hbits,
    kept2.format.trans kept1.format, ?_, ?_, ?_, ?_, ?_⟩
  · have hadd : checkedAdd (total size pre) OBJECT_TYPE_ID =
        .ok (total size pre + 8) := checkedAdd_ok (by
          rw [OBJECT_TYPE_ID, blockHeaderBytes]
          omega)
    simp only [commit, validateReservation_ok hw hk, ok_bind, e1, hr1.readFlags he hhole, hk, hflags,
      e2, checkedAdd_ok hlive, hadd, eref, okOrCorrupt, pure_eq_ok]
  · exact hr2.setCounts h2.totalFree _
  · exact hw.tidy.replace (by simp [Settled]) rfl rfl (by simp)
  · refine fun hstrict => forall_mem_replace (hw.clean hstrict) fun t' m heq => ?_
    cases heq
    exact ⟨rfl, ht32⟩
  · rw [kept2.free, kept1.free, hw.totalFree]
    simp [hk]
  · rw [kept2.live, kept1.live, hw.liveObjects]
    simp [isLive, hk]
    omega

theorem abort_spec (hw : Sound g h (pre ++ b :: post)) (hk : b.kind = .reserved)
    (hback : g.tagged ∨ h.Releasable (total size pre)) :
    ∃ h' bs', h.abort ⟨total size pre, t⟩ = .ok h' ∧ h'.headerFormat = h.headerFormat ∧
      Sound g h' bs' ∧ (∀ o k n f, k.allocated = true →
        (View bs' o k n f ↔ View (pre ++ b :: post) o k n f ∧ o ≠ total size pre)) ∧
      h'.totalFree = h.totalFree + b.size ∧ h'.liveObjects = h.liveObjects := by
  have hlive : isLive b = false := by simp [isLive, hk]
  obtain ⟨h', bs', e, hf, hw', hafter⟩ := Sound.freeBlock hw.rep hw.tidy hw.clean hw.totalFree
    (by rw [hlive]; simpa using hw.liveObjects) (by rw [hk]; rfl) (hw.backed hback)
  refine ⟨h', bs', ?_, hf, hw', hafter⟩
  simp only [abort, validateReservation_ok hw hk, ok_bind]
  exact e

/-- A live block is what its reference designates. -/
theorem liveBlock_ok {m : Bool} {ref : Ref32} (hr : Rep h (pre ++ b :: post))
    (hk : b.kind = .live t m) (href : ref.bits = total size pre + 8) :
    h.liveBlock ref = .ok (total size pre) ∧ ref.domain = .managed := by
  have he := placed_mid pre post b
  have hslot := hr.slot he
  have hal := hslot.aligned
  have hroom := hslot.room
  have hhole : b.kind ≠ .hole := by simp [hk]
  have hsmall := hr.small
  have hdom : ref.domain = .managed :=
    (domain_managed_iff ref).mpr (by unfold maxPayload; omega)
  have hpay : ref.payload = total size pre + 8 := by rw [payload_of_managed hdom, href]
  have hflag : ¬ b.kind.flags &&& LIVE = 0 := by
    rw [hk]
    cases m <;> simp [Kind.flags, ALLOCATED, LIVE, MARKED]
  refine ⟨?_, hdom⟩
  have hsub : ref.payload - OBJECT_TYPE_ID = total size pre := by
    rw [hpay, OBJECT_TYPE_ID, blockHeaderBytes, Nat.add_sub_cancel]
  simp only [liveBlock, hdom, ne_eq, not_true_eq_false, false_or, hsub, hr.blockAllocated he hhole,
    hr.readFlags he hhole, ok_bind, if_neg hflag, pure_eq_ok]
  rw [if_neg (by rw [hpay, OBJECT_TYPE_ID, blockHeaderBytes, blockAlignment]; omega), if_neg (by omega)]
  simp [hk, Kind.allocated]

theorem free_spec {m : Bool} {ref : Ref32} (hw : Sound g h (pre ++ b :: post))
    (hk : b.kind = .live t m) (href : ref.bits = total size pre + 8)
    (hback : g.tagged ∨ h.Releasable (total size pre)) :
    ∃ h' bs', h.free ref = .ok (h', true) ∧ h'.headerFormat = h.headerFormat ∧
      Sound g h' bs' ∧ ∀ o k n f, k.allocated = true →
        (View bs' o k n f ↔ View (pre ++ b :: post) o k n f ∧ o ≠ total size pre) := by
  obtain ⟨hlb, hdom⟩ := liveBlock_ok hw.rep hk href
  have hlive : isLive b = true := by simp [isLive, hk]
  have hcount : h.liveObjects - 1 + 1 = liveCount (pre ++ b :: post) := by
    rw [hw.liveObjects]
    simp [hlive]
    omega
  obtain ⟨h', bs', e, hf, hw', hview, -⟩ := Sound.freeBlock
    (h := { h with liveObjects := h.liveObjects - 1 }) (hw.rep.setCounts h.totalFree _) hw.tidy
    hw.clean hw.totalFree (by rw [hlive]; exact hcount) (by rw [hk]; rfl) (hw.backed hback)
  refine ⟨h', bs', ?_, hf, hw', hview⟩
  have hsub : checkedSub h.liveObjects 1 = .ok (h.liveObjects - 1) := checkedSub_ok (by
    rw [hw.liveObjects]
    omega)
  simp only [free, hdom, ne_eq, not_true_eq_false, if_false, hlb, hsub, ok_bind, e, pure_eq_ok]

end

end Compukter.Heap
