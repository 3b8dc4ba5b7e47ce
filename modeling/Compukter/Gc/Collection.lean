/-
A whole collection.

`CollectInv` names the invariant of each phase, the blocks that the gray queue still owes (`waiting`)
and a bound on the steps that are left, which every step lowers (`step_spec`): one step for each root, each
live block, each reference of a live block and each block, and three to change the phase.  However a
collection is driven, when it is idle again the live blocks are EXACTLY those that the managed roots reach,
each with its type, size and bytes.
-/
import Compukter.Gc.Mark
import Compukter.Gc.Sweep
import Compukter.Heap.Run
import Mathlib.Algebra.BigOperators.Group.List.Basic
import Mathlib.Data.List.Perm.Subperm

namespace Compukter

open Bytes Fallible Tiling Heap Marking List
open Collector

/-- `start` has been called; `k` steps of the collector against unchanging roots. -/
def Collector.run (image : ImageView) (roots : RootSet) :
    Nat → Collector × Heap → Except VmFault (Collector × Heap)
  | 0, s => .ok s
  | k + 1, (c, h) => do
    let s ← c.step h image roots
    Collector.run image roots k s

/-! ## Marking and counting -/

section Recolour

variable {bs₀ bs : List Block} {a b : Block}

theorem Heap.Recolour.free_iff (h : Recolour a b) : b.kind = .free ↔ a.kind = .free := by
  rcases h.2.2 with hk | ⟨t, h1, h2⟩
  · rw [hk]
  · simp [h1, h2]

theorem Heap.Recolour.isLive_eq (h : Recolour a b) : isLive b = isLive a := by
  unfold isLive
  rcases h.2.2 with hk | ⟨t, h1, h2⟩
  · rw [hk]
  · rw [h1, h2]

theorem Heap.Recolour.settled (h : Recolour a b) (hs : Settled a) : Settled b := by
  unfold Settled at hs ⊢
  rcases h.2.2 with hk | ⟨t, h1, h2⟩
  · rw [hk]
    exact hs
  · simp [h2]

section

variable (h : bs₀.Forall₂ Recolour bs)
include h

theorem recolour_freeBytes : freeBytes bs = freeBytes bs₀ := by
  induction h with
  | nil => rfl
  | cons h1 _ ih => simp only [freeBytes_cons, ih, h1.1, h1.free_iff]

theorem recolour_liveCount : liveCount bs = liveCount bs₀ := by
  induction h with
  | nil => rfl
  | cons h1 _ ih => rw [liveCount_cons, liveCount_cons, ih, h1.isLive_eq]

theorem recolour_chain (hc : bs₀.IsChain NotBothFree) : bs.IsChain NotBothFree := by
  induction h with
  | nil => exact .nil
  | cons h1 h2 ih =>
    rw [isChain_cons] at hc ⊢
    refine ⟨?_, ih hc.2⟩
    intro q hq hboth
    cases h2 with
    | nil => cases hq
    | cons h3 =>
      simp only [head?_cons, Option.mem_some_iff] at hq
      subst hq
      exact hc.1 _ (by simp) ⟨h1.free_iff.mp hboth.1, h3.free_iff.mp hboth.2⟩

theorem recolour_settled (hs : ∀ a ∈ bs₀, Settled a) : ∀ b ∈ bs, Settled b := by
  intro b hb
  obtain ⟨a, ha, hR⟩ := forall₂_mem_left h.flip hb
  exact Recolour.settled hR (hs a ha)

end

/-- What a live block costs the collector: one step to dequeue it and one for each reference. -/
def blockWork (image : ImageView) (po : Nat) (b : Block) : Option Nat :=
  match b.kind with
  | .live t _ => some (1 + references image po t b.bytes)
  | _ => none

/-- The live blocks with what each costs. -/
def workList (image : ImageView) (po : Nat) (bs : List Block) : List (Nat × Nat) :=
  (placed bs).filterMap fun e => (blockWork image po e.2).map (e.1, ·)

/-- The references in live blocks. -/
def referenceCount (image : ImageView) (po : Nat) (bs : List Block) : Nat :=
  total (fun b => (blockWork image po b).elim 0 (· - 1)) bs

variable {image : ImageView}

theorem mem_workList {po o w : Nat} :
    (o, w) ∈ workList image po bs ↔ ∃ b, (o, b) ∈ placed bs ∧ blockWork image po b = some w := by
  simp [workList]

theorem blockWork_eq_some {po w : Nat} {b : Block} :
    blockWork image po b = some w ↔ ∃ t m, b.kind = .live t m ∧ w = 1 + references image po t b.bytes := by
  unfold blockWork
  cases b.kind <;> simp [eq_comm]

theorem sum_workList (image : ImageView) (po : Nat) (bs : List Block) :
    ((workList image po bs).map Prod.snd).sum = liveCount bs + referenceCount image po bs := by
  have hall : ∀ x, (((place Block.size x bs).filterMap fun e =>
      (blockWork image po e.2).map (e.1, ·)).map Prod.snd).sum = liveCount bs + referenceCount image po bs := by
    induction bs with
    | nil => exact fun _ => rfl
    | cons b _ ih =>
      intro x
      have hrest := ih (x + b.size)
      rw [place_cons, filterMap_cons, liveCount_cons, referenceCount, total_cons, ← referenceCount]
      cases hw : blockWork image po b with
      | none =>
        have hlive : isLive b = false := by
          unfold isLive
          unfold blockWork at hw
          cases hk : b.kind <;> simp_all
        simp only [hlive, Option.map_none, Option.elim_none, Bool.false_eq_true, if_false, hrest]
        omega
      | some =>
        obtain ⟨t, m, hk, rfl⟩ := blockWork_eq_some.mp hw
        simp only [isLive, hk, Option.map_some, Option.elim_some, map_cons, sum_cons, if_true, hrest]
        omega
  exact hall 0

end Recolour

/-! ## The invariant of a collection -/

/-- Roots, objects and blocks can all be processed. -/
structure Readable (image : ImageView) (roots : RootSet) (po : Nat) (bs₀ : List Block) : Prop where
  reads : ∀ fault, .error fault ∉ pending image roots new.start
  typed : Typed image po bs₀
  unreserved : ∀ o n f, ¬ View bs₀ o .reserved n f

/-- What a collection leaves. -/
structure Collected (image : ImageView) (roots : RootSet) (h₀ : Heap) (bs₀ : List Block) (h : Heap)
    (bs : List Block) : Prop where
  heap : WellFormed h bs
  format : h.headerFormat = h₀.headerFormat
  size : h.arenaBytes = h₀.arenaBytes
  live : ∀ o t n f, LiveAt bs o t n f ↔ LiveAt bs₀ o t n f ∧
    Reach (RootAt image roots) (Edge image h₀.payloadOffset bs₀) o
  unreserved : ∀ o n f, ¬ View bs o .reserved n f
  hint : ∀ b ∈ bs, b.kind = .free → h.HintCovers bs b.size

/-- Every live block that is unmarked or gray is still owed. -/
def Owed (image : ImageView) (po : Nat) (bs₀ bs : List Block) (gray : List Nat) (waiting : List (Nat × Nat)) : Prop :=
  ∀ o t n f, LiveAt bs₀ o t n f → ¬ Marked bs o ∨ o ∈ gray → (o, 1 + references image po t f) ∈ waiting

variable {image : ImageView} {bs : List Block} {waiting : List (Nat × Nat)}

theorem Owed.visit {po : Nat} {bs₀ bs' : List Block} {gray gray' : List Nat} (h : Owed image po bs₀ bs gray waiting)
    (hmono : ∀ o, Marked bs o → Marked bs' o) (hnew : ∀ o ∈ gray', o ∈ gray ∨ ¬ Marked bs o) :
    Owed image po bs₀ bs' gray' waiting := by
  intro o t n f hl ho
  refine h o t n f hl ?_
  rcases ho with ho | ho
  · exact .inl fun hm => ho (hmono o hm)
  · exact (hnew o ho).symm

/-- The work that the gray queue owes. -/
def owing (waiting : List (Nat × Nat)) : Nat := (waiting.map Prod.snd).sum

/-- The invariant of each phase, with the blocks to be dequeued and a bound on the steps to come. -/
inductive CollectInv (image : ImageView) (roots : RootSet) (h₀ : Heap) (bs₀ : List Block)
    (c : Collector) (h : Heap) : List (Nat × Nat) → Nat → Prop
  | roots (bs : List Block) (gray : List Nat) (left : Nat) (waiting : List (Nat × Nat)) :
      RootsInv image roots h₀ bs₀ c h bs gray left →
      (∀ read ∈ pending image roots c, read ∈ pending image roots new.start) →
      Owed image h₀.payloadOffset bs₀ bs gray waiting →
      CollectInv image roots h₀ bs₀ c h waiting (left + owing waiting + bs₀.length + 3)
  | mark (bs : List Block) (gray : List Nat) (left : Nat) (waiting : List (Nat × Nat)) :
      MarkInv image roots h₀ bs₀ c h bs gray left →
      Owed image h₀.payloadOffset bs₀ bs gray waiting →
      CollectInv image roots h₀ bs₀ c h waiting (left + owing waiting + bs₀.length + 2)
  | sweep (h₁ : Heap) (bs₁ done rest : List Block) : c.phase = .sweep →
      c.sweepOffset = total Block.size done → c.sweepPreviousSize = lastSize Block.size 0 done →
      Kept h₀ h₁ → Rep h₁ bs₁ → bs₀.Forall₂ Recolour bs₁ →
      (∀ o, Marked bs₁ o ↔ Reach (RootAt image roots) (Edge image h₀.payloadOffset bs₀) o) →
      Swept h₁ bs₁ h done rest →
      CollectInv image roots h₀ bs₀ c h [] (rest.length + 1)
  | idle (bs : List Block) : c.phase = .idle → Collected image roots h₀ bs₀ h bs →
      CollectInv image roots h₀ bs₀ c h [] 0

/-- The block that the next step takes out of the gray queue. -/
def Collector.dequeued (c : Collector) : List Nat :=
  if c.phase = .mark ∧ c.scan = none then (c.grayHead.map (· - 8)).toList else []

theorem Collector.dequeued_of_phase {c : Collector} (h : c.phase ≠ .mark) : c.dequeued = [] := by
  rw [dequeued, if_neg fun hm => h hm.1]

/-- While something is left to visit no block is dequeued, otherwise the first one of the queue is. -/
theorem MarkInv.dequeued {roots : RootSet} {h₀ h : Heap} {bs₀ : List Block}
    {c : Collector} {gray : List Nat} {left : Nat} (hi : MarkInv image roots h₀ bs₀ c h bs gray left) :
    c.dequeued = if left = 0 then gray.head?.toList else [] := by
  have hscan := hi.scan
  rw [Collector.dequeued, hi.marks.state.queue.head]
  match hc : c.scan with
  | none =>
    rw [hc] at hscan
    rw [if_pos ⟨hi.phase, rfl⟩, if_pos (show left = 0 from hscan)]
    cases gray <;> rfl
  | some (.object r next) =>
    rw [hc] at hscan
    obtain ⟨o, t, n, f, _, -, -, -, hlt, hleft⟩ := hscan
    simp only [reduceCtorEq, and_false, if_false]
    rw [if_neg (show ¬ left = 0 by omega)]
  | some (.referenceArray r next length) =>
    rw [hc] at hscan
    obtain ⟨o, t, n, f, -, -, -, -, hlt, hleft⟩ := hscan
    simp only [reduceCtorEq, and_false, if_false]
    rw [if_neg (show ¬ left = 0 by omega)]

/-- **One step of marking pays for itself.**  A visit lowers what is left; a dequeued block is no longer
owed, and its own step is one more than its references. -/
theorem Advances.pays {po left left' : Nat} {bs₀ bs' : List Block} {gray gray' : List Nat} (hnodup : gray.Nodup)
    (hmarked : ∀ o ∈ gray, Marked bs o) (hadv : Advances image po bs₀ bs bs' gray gray' left left')
    (howed : Owed image po bs₀ bs gray waiting) : ∃ waiting', Owed image po bs₀ bs' gray' waiting' ∧
      left' + owing waiting' < left + owing waiting ∧
      List.Perm ((if left = 0 then gray.head?.toList else []) ++ waiting'.map Prod.fst) (waiting.map Prod.fst) := by
  cases hadv with
  | visit _ hmono hnew =>
    refine ⟨waiting, howed.visit hmono hnew, by omega, ?_⟩
    rw [if_neg (by omega)]
    exact .refl _
  | dequeue o t n f hleft hgray hl _ hsame =>
    subst hgray
    have hmem : (o, 1 + references image po t f) ∈ waiting := howed o t n f hl (.inr mem_cons_self)
    have hperm := perm_cons_erase hmem
    refine ⟨waiting.erase (o, 1 + references image po t f), fun o' t' n' f' hl' ho' => ?_, ?_, ?_⟩
    · have hne : o' ≠ o := by
        rintro rfl
        rcases ho' with ho' | ho'
        · exact ho' ((hsame o').mpr (hmarked o' mem_cons_self))
        · exact (nodup_cons.mp hnodup).1 ho'
      refine (mem_erase_of_ne fun heq => hne (Prod.mk.inj heq).1).mpr (howed o' t' n' f' hl' ?_)
      exact ho'.imp (fun hn hm => hn ((hsame o').mpr hm)) (mem_cons_of_mem o)
    · have hsum := (hperm.map Prod.snd).sum_eq
      rw [map_cons, sum_cons] at hsum
      unfold owing
      omega
    · rw [if_pos hleft]
      exact (hperm.map Prod.fst).symm

/-! ## The steps -/

section Steps

variable {image : ImageView} {roots : RootSet} {h₀ h : Heap} {bs₀ bs : List Block} {c : Collector}
  {waiting : List (Nat × Nat)} {r : Nat}

/-- The steps that a collection of the blocks takes at most. -/
def stepBound (image : ImageView) (roots : RootSet) (po : Nat) (bs : List Block) : Nat :=
  (pending image roots new.start).length +
    (liveCount bs + referenceCount image po bs) + bs.length + 3

/-- Before the first step. -/
theorem collectInv_start (hw : WellFormed h₀ bs₀) :
    CollectInv image roots h₀ bs₀ c.start h₀ (workList image h₀.payloadOffset bs₀)
      (stepBound image roots h₀.payloadOffset bs₀) := by
  have hnone : ∀ o, ¬ Marked bs₀ o := by
    rintro o ⟨b, t, hb, hk⟩
    exact hw.unmarked b (mem_of_mem_place hb) t hk
  have hrefl : bs₀.Forall₂ Recolour bs₀ := forall₂_same.mpr fun b _ => ⟨rfl, rfl, .inl rfl⟩
  rw [stepBound, ← sum_workList]
  refine .roots bs₀ [] _ _ ⟨rfl, rfl, ⟨⟨Kept.refl h₀, hw.rep, hrefl, ?_⟩, ?_⟩, ?_, rfl⟩ (fun _ hread => hread) ?_
  · exact ⟨trivial, nodup_nil, nofun, rfl, rfl⟩
  · refine Tricolour.start (fun o => ?_) hnone
    constructor
    · rintro ⟨ref, hr, hn⟩
      exact ⟨ref, (root_iff_pending c).mpr hr, hn⟩
    · rintro ⟨ref, hr, hn⟩
      exact ⟨ref, (root_iff_pending c).mp hr, hn⟩
  · exact fun ref hr => (root_iff_pending c).mpr hr
  · rintro o t n f ⟨v, hv⟩ -
    exact mem_workList.mpr ⟨_, hv, rfl⟩

/-- Marking is over: the sweep starts with everything ahead. -/
theorem swept_start {gray : List Nat} (hw : WellFormed h₀ bs₀)
    (hs : MarkState h₀ bs₀ c h bs gray) : Swept h bs h [] bs where
  rep := hs.rep
  format := rfl
  extent := rfl
  settled := recolour_settled hs.recolour hw.tidy.settled
  tagged := trivial
  coalesced := recolour_chain hs.recolour (hw.tidy.coalesced trivial)
  totalFree := by rw [hs.kept.free, hw.totalFree, nil_append, recolour_freeBytes hs.recolour]
  liveObjects := by
    rw [hs.kept.live, hw.liveObjects, nil_append, recolour_liveCount hs.recolour]
  view := by simp
  hint := nofun

/-- A block of the beginning that is marked at the end of marking. -/
theorem view_marked_iff {o t n : Nat} {f : Memory} (hw : WellFormed h₀ bs₀) (hr : Rep h bs)
    (hrec : bs₀.Forall₂ Recolour bs) : View bs o (.live t true) n f ↔ LiveAt bs₀ o t n f ∧ Marked bs o := by
  constructor
  · rintro ⟨v, hv⟩
    exact ⟨liveAt_before hrec hv rfl (hw.clean trivial), _, t, hv, rfl⟩
  · rintro ⟨hl, b, t', hb, hk⟩
    obtain ⟨b', m, hb', hk', rfl, rfl⟩ := liveAt_now hrec hl
    have heq := hr.unique hb' hb
    subst heq
    rw [hk] at hk'
    cases hk'
    refine ⟨b'.link, ?_⟩
    rw [← hk]
    exact hb'

theorem view_reserved {o n : Nat} {f : Memory} (hrec : bs₀.Forall₂ Recolour bs)
    (hv : View bs o .reserved n f) : View bs₀ o .reserved n f := by
  obtain ⟨v, hv⟩ := hv
  obtain ⟨⟨o', a⟩, ha, ho, hR⟩ := forall₂_mem_left (placed_recolour hrec).flip hv
  subst ho
  obtain ⟨hsize, hbytes, hk | ⟨t, -, hk⟩⟩ := hR
  · refine ⟨a.link, ?_⟩
    dsimp only at hsize hbytes hk
    rw [hsize, hbytes, hk]
    exact ha
  · cases hk

/-- The sweep is over: nothing is left ahead. -/
theorem collected_of_swept {h₁ : Heap} {bs₁ done : List Block} (hw : WellFormed h₀ bs₀)
    (hr₁ : Rep h₁ bs₁) (hkept : Kept h₀ h₁) (hrec : bs₀.Forall₂ Recolour bs₁)
    (hmarked : ∀ o, Marked bs₁ o ↔ Reach (RootAt image roots) (Edge image h₀.payloadOffset bs₀) o)
    (hs : Swept h₁ bs₁ h done []) : Collected image roots h₀ bs₀ h done := by
  obtain ⟨hrep, hformat, hsize, hsettled, htagged, hchain, hfree, hlive, hview, hhint⟩ := hs
  simp only [append_nil] at hrep hsettled hchain hfree hlive hview hhint
  -- a block of the heap before the sweep starts below the end of the arena
  have hbelow : ∀ {o k n f}, View bs₁ o k n f → o < total Block.size done := by
    rintro o k n f ⟨v, hv⟩
    have h1 : o + n ≤ h₁.arenaBytes := hr₁.le_arena hv
    have h2 : 16 ≤ n := (hr₁.okAt hv).lo
    have h3 := hrep.tiles
    omega
  have hkeeps : ∀ {o k n f}, k.allocated = true →
      (View done o k n f ↔ ∃ t, k = .live t false ∧ View bs₁ o (.live t true) n f) := by
    intro o k n f hk
    rw [hview o k n f hk]
    constructor
    · rintro (⟨-, hmarked⟩ | ⟨hge, hv⟩)
      · exact hmarked
      · exact absurd (hbelow hv) (Nat.not_lt.mpr hge)
    · rintro ⟨t, ht, hv⟩
      exact .inl ⟨hbelow hv, t, ht, hv⟩
  refine ⟨⟨hrep, ⟨hsettled, fun _ => ⟨0, fun _ => rfl, htagged⟩, fun _ => hchain⟩, fun _ b hb t m hk => ?_, hfree,
    hlive⟩, hformat.trans hkept.format, hsize.trans hkept.size, fun o t n f => ?_, fun o n f hv => ?_, hhint⟩
  · obtain ⟨pre, post, rfl⟩ := append_of_mem hb
    obtain ⟨t', ht, hv⟩ := (hkeeps rfl).mp (hk ▸ view_of_mem (placed_mid pre post b))
    cases ht
    exact ⟨rfl, ((view_marked_iff hw hr₁ hrec).mp hv).1.type_lt (hw.clean trivial)⟩
  · rw [← hmarked o, ← view_marked_iff hw hr₁ hrec]
    show View done o (.live t false) n f ↔ _
    rw [hkeeps rfl]
    constructor
    · rintro ⟨t', ht, hv⟩
      cases ht
      exact hv
    · exact fun hv => ⟨t, rfl, hv⟩
  · obtain ⟨t, ht, -⟩ := (hkeeps rfl).mp hv
    cases ht

/-- **One step of a collection.**  It keeps the invariant and lowers the bound, and the block that it
dequeues is not owed any more; unless something the collection has to read cannot be read. -/
theorem step_spec (hw : WellFormed h₀ bs₀) (hclosed : Closed image roots h₀.payloadOffset bs₀)
    (hi : CollectInv image roots h₀ bs₀ c h waiting r) (hphase : c.phase ≠ .idle) :
    (¬ Readable image roots h₀.payloadOffset bs₀ ∧ ∃ fault, c.step h image roots = .error fault) ∨
    ∃ c' h' waiting' r', c.step h image roots = .ok (c', h') ∧
      CollectInv image roots h₀ bs₀ c' h' waiting' r' ∧ r' < r ∧
      List.Subperm (c.dequeued ++ waiting'.map Prod.fst) (waiting.map Prod.fst) := by
  cases hi with
  | roots bs gray _ _ hi hahead howed =>
    have hnone := dequeued_of_phase (c := c) (by simp [hi.phase])
    have hstep : c.step h image roots = c.rootStep h image roots := by
      rw [step, hi.phase]
    rw [hstep]
    rcases rootStep_spec hclosed hi with
      ⟨fault, hmem, e⟩ | ⟨c', h', bs', gray', left', e, hi', hleft, hmono, hnew, hsub⟩ | ⟨c', e, hi'⟩
    · exact .inl ⟨fun hread => hread.reads fault (hahead _ hmem), fault, e⟩
    · refine .inr ⟨c', h', waiting, _, e, .roots bs' gray' left' waiting hi'
        (fun read hr => hahead _ (hsub _ hr)) (howed.visit hmono hnew), by omega, ?_⟩
      rw [hnone]
      exact .refl _
    · refine .inr ⟨c', h, waiting, _, e, .mark bs gray 0 waiting hi' howed, by omega, ?_⟩
      rw [hnone]
      exact .refl _
  | mark bs _ left _ hi howed =>
    have hstep : c.step h image roots = c.markStep h image := by
      rw [step, hi.phase]
    rw [hstep]
    rcases markStep_spec hw.rep (hw.clean trivial) hclosed hi with
      (⟨hnt, hfault⟩ | ⟨c', h', bs', gray', left', e, hi', hadv⟩) | ⟨hscan, rfl, c', e, h1, h2, h3⟩
    · exact .inl ⟨fun hread => hnt hread.typed, hfault⟩
    · obtain ⟨waiting', howed', hlt, hperm⟩ := hadv.pays hi.marks.state.queue.nodup hi.marks.state.queue.marked howed
      refine .inr ⟨c', h', waiting', _, e, .mark bs' gray' left' waiting' hi' howed', by omega, ?_⟩
      rw [hi.dequeued]
      exact hperm.subperm
    · refine .inr ⟨c', h, [], _, e, .sweep h bs [] bs h1 h2 h3 hi.marks.state.kept
        hi.marks.state.rep hi.marks.state.recolour ?_ (swept_start hw hi.marks.state), ?_, ?_⟩
      rotate_left
      · rw [← hi.marks.state.recolour.length_eq]
        omega
      · rw [hi.dequeued]
        cases h0 : decide (left = 0) <;> simp_all
      refine hi.marks.colours.exact ?_ nofun
      rintro o ⟨ref, hr, -⟩
      rw [hscan] at hr
      exact hr
  | sweep h₁ bs₁ done rest hp ho hprev hkept hr₁ hrec hmarked hs =>
    have hstep : c.step h image roots = c.sweepStep h := by
      rw [step, hp]
    rw [hstep, sweepStep]
    have hnone := dequeued_of_phase (c := c) (by simp [hp])
    have htiles := hs.rep.tiles
    rw [total_append] at htiles
    cases rest with
    | nil =>
      rw [total_nil] at htiles
      rw [if_pos (by omega)]
      refine .inr ⟨{ c with phase := .idle }, h, [], _, rfl,
        .idle done rfl (collected_of_swept hw hr₁ hkept hrec hmarked hs), Nat.succ_pos _, ?_⟩
      rw [hnone]
      exact .refl _
    | cons b rest =>
      have hlo := (hs.rep.ok b (by simp)).lo
      rw [total_cons] at htiles
      rw [if_neg (by omega), ho, hprev]
      rcases sweepBlock_spec hs with ⟨hk, e⟩ | ⟨h', done', rest', e, hlt, hs'⟩
      · refine .inl ⟨fun hread => ?_, .corruptHeap, by rw [e]; rfl⟩
        have hv : View (done ++ b :: rest) (total Block.size done) .reserved b.size b.bytes :=
          ⟨b.link, by rw [← hk]; exact placed_mid done rest b⟩
        rcases (hs.view _ _ _ _ rfl).mp hv with ⟨hlt, -⟩ | ⟨-, hv₁⟩
        · omega
        · exact hread.unreserved _ _ _ (view_reserved hrec hv₁)
      · refine .inr ⟨{ c with sweepOffset := total Block.size done',
                              sweepPreviousSize := lastSize Block.size 0 done' }, h', [], _, ?_,
          .sweep h₁ bs₁ done' rest' hp rfl rfl hkept hr₁ hrec hmarked hs', ?_, ?_⟩
        · simp only [e, ok_bind, pure_eq_ok]
        · rw [length_cons]
          omega
        · rw [hnone]
          exact .refl _
  | idle _ hp => exact absurd hp hphase

/-! ## Whole collections -/

/-- The next step of a collection that is idle does nothing. -/
theorem step_idle (hidle : c.phase = .idle) : c.step h image roots = .ok (c, h) := by
  rw [step, hidle]

section

variable (hw : WellFormed h₀ bs₀) (hclosed : Closed image roots h₀.payloadOffset bs₀)
include hw hclosed

/-- Whatever number of steps was run: the invariant holds. -/
theorem run_collectInv (k : Nat) {c' : Collector} {h' : Heap} (hi : CollectInv image roots h₀ bs₀ c h waiting r)
    (e : run image roots k (c, h) = .ok (c', h')) :
    ∃ waiting' r', CollectInv image roots h₀ bs₀ c' h' waiting' r' := by
  induction k generalizing c h waiting r with
  | zero =>
    cases e
    exact ⟨waiting, r, hi⟩
  | succ _ ih =>
    obtain ⟨⟨c₁, h₁⟩, e₁, e₂⟩ := bind_eq_ok.mp e
    by_cases hidle : c.phase = .idle
    · cases (step_idle hidle).symm.trans e₁
      exact ih hi e₂
    · rcases step_spec hw hclosed hi hidle with ⟨-, _, ef⟩ | ⟨c'', h'', _, _, e', hi', -, -⟩
      · cases e₁.symm.trans ef
      · cases e₁.symm.trans e'
        exact ih hi' e₂

/-- **A collection that is idle again has collected.** -/
theorem run_collected (k : Nat) {c' : Collector} {h' : Heap}
    (e : run image roots k (c.start, h₀) = .ok (c', h')) (hidle : c'.phase = .idle) :
    ∃ bs, Collected image roots h₀ bs₀ h' bs := by
  obtain ⟨_, r, hi⟩ := run_collectInv hw hclosed k (collectInv_start hw) e
  cases hi with
  | roots _ _ _ _ hi | mark _ _ _ _ hi =>
    rw [hi.phase] at hidle
    cases hidle
  | sweep _ _ _ _ hp =>
    rw [hp] at hidle
    cases hidle
  | idle bs _ hc => exact ⟨bs, hc⟩

/-- Within the bound a collection is idle, or it has met something that it cannot read. -/
theorem run_ends : ∀ c h waiting, CollectInv image roots h₀ bs₀ c h waiting r → ∃ k ≤ r,
      (∃ c' h', run image roots k (c, h) = .ok (c', h') ∧ c'.phase = .idle) ∨
      (¬ Readable image roots h₀.payloadOffset bs₀ ∧ ∃ fault, run image roots k (c, h) = .error fault) := by
  induction r using Nat.strong_induction_on with
  | h r ih =>
    intro c h waiting hi
    by_cases hidle : c.phase = .idle
    · exact ⟨0, Nat.zero_le r, .inl ⟨c, h, rfl, hidle⟩⟩
    · rcases step_spec hw hclosed hi hidle with
        ⟨hnot, fault, e⟩ | ⟨c₁, h₁, waiting₁, r₁, e, hi₁, hlt, -⟩
      · refine ⟨1, ?_, .inr ⟨hnot, fault, ?_⟩⟩
        · cases hi with
          | idle _ hp => exact absurd hp hidle
          | _ => omega
        · rw [run, e]
          rfl
      · obtain ⟨k, hk, hend⟩ := ih r₁ hlt c₁ h₁ waiting₁ hi₁
        refine ⟨k + 1, (Nat.succ_le_succ hk).trans hlt, ?_⟩
        rw [run, e]
        exact hend

end

end Steps

/-- **Collections over runs of the heap.**  Take any heap that heap operations reached, without an
outstanding reservation, and any roots whose managed references, like those stored in live blocks,
name live blocks.  However many steps a collection takes, when it is idle the live blocks are exactly
those that the roots reach, with their types, sizes and payloads, and the heap is structurally sound
with no mark set.  And a collection whose roots and layouts can be read does become idle. -/
theorem collection_keeps_the_reachable {plan : StoragePlan} {typeCount : Nat} {s : HeapRun}
    (hsel : plan.Selected typeCount) (hs : HeapRun.Reachable plan typeCount s)
    (hres : s.reservations = []) :
    ∃ bs, WellFormed s.heap bs ∧ ∀ (image : ImageView) (roots : RootSet) (c : Collector),
      Closed image roots s.heap.payloadOffset bs →
      (∀ k c' h', run image roots k (c.start, s.heap) = .ok (c', h') → c'.phase = .idle →
        ∃ bs' lists, Structural h' bs' lists ∧
          (∀ o t n f, LiveAt bs' o t n f ↔ LiveAt bs o t n f ∧
            Reach (RootAt image roots) (Edge image s.heap.payloadOffset bs) o) ∧
          ∀ o t n f, LiveAt bs' o t n f → h'.readType o = s.heap.readType o ∧
            ∀ i, s.heap.payloadOffset ≤ i → i < n → h'.arena (o + i) = s.heap.arena (o + i)) ∧
      (Typed image s.heap.payloadOffset bs →
        (∀ fault, .error fault ∉ pending image roots c.start) →
        ∃ k c' h', run image roots k (c.start, s.heap) = .ok (c', h') ∧
          c'.phase = .idle) := by
  obtain ⟨bs, hok⟩ := hs.runOk hsel
  refine ⟨bs, hok.heap, fun image roots c hclosed => ⟨fun k c' h' e hidle => ?_, fun ht hr => ?_⟩⟩
  · obtain ⟨bs', hcol⟩ := run_collected hok.heap hclosed k e hidle
    obtain ⟨lists, hstruct⟩ := hcol.heap.structural
    refine ⟨bs', lists, hstruct, hcol.live, fun o t n f hl => ?_⟩
    obtain ⟨v', hv'⟩ := id hl
    obtain ⟨v, hv⟩ := ((hcol.live o t n f).mp hl).1
    have ht := hl.type_lt (hcol.heap.clean trivial)
    refine ⟨(hcol.heap.rep.readType hv' rfl ht).trans (hok.heap.rep.readType hv rfl ht).symm, ?_⟩
    intro i hlo hhi
    have hpo : h'.payloadOffset = s.heap.payloadOffset := congrArg HeaderFormat.bytes hcol.format
    have h1 : h'.arena (o + i) = f i := (hcol.heap.rep.stored _ hv').bytes rfl i (hpo ▸ hlo) hhi
    have h2 : s.heap.arena (o + i) = f i := (hok.heap.rep.stored _ hv).bytes rfl i hlo hhi
    rw [h1, h2]
  · have hread : Readable image roots s.heap.payloadOffset bs := by
      refine ⟨hr, ht, fun o n f hv => ?_⟩
      obtain ⟨r, hmem, -⟩ := hok.held trivial o n f hv
      rw [hres] at hmem
      cases hmem
    obtain ⟨k, -, hend | ⟨hnot, -⟩⟩ := run_ends hok.heap hclosed _ _ _ (collectInv_start hok.heap)
    · exact ⟨k, hend⟩
    · exact absurd hread hnot

/-- An image whose types are objects without references. -/
def oneTypeImage : ImageView where
  fields := []
  safepointMap _ _ _ := none
  typeKey _ := some ⟨0, 0⟩
  typeLayout _ := some (.object ⟨[]⟩)

def oneRoot (ref : Ref32) : RootSet where
  statics := ⟨⟨fun _ => 0, 0⟩, ⟨[]⟩, ⟨0, 0⟩⟩
  frames := []
  savedFrames := []
  taskFailures := []
  frameArena := ⟨fun _ => 0, 0⟩
  frameDepth := 0
  runtimeRoots := [some ref]
  external := []

theorem root_oneRoot {ref r : Ref32} (h : Root oneTypeImage (oneRoot ref) r) : r = ref := by
  cases h with
  | runtime h => simpa [oneRoot] using h
  | failure h | external h | active frame h | saved frame h => simp [oneRoot] at h
  | static _ h => simp [oneTypeImage] at h

theorem not_holds_oneTypeImage {po t : Nat} {f : Memory} {ref : Ref32} : ¬ Holds oneTypeImage po t f ref := by
  intro h
  cases h with
  | field _ _ h hmem =>
    cases h
    cases hmem
  | element _ h => cases h

/-- A root for a live first block closes a heap whose objects hold no references. -/
theorem closed_oneRoot {po : Nat} (hlive : ∃ t n f, LiveAt bs 0 t n f) :
    Closed oneTypeImage (oneRoot ⟨8, by decide, by decide⟩) po bs := by
  obtain ⟨t, n, f, hlive⟩ := hlive
  exact ⟨fun ref hroot _ => ⟨0, t, n, f, by rw [root_oneRoot hroot], hlive⟩,
    fun _ _ _ _ _ _ hholds => absurd hholds not_holds_oneTypeImage⟩

/-- The first block of a heap is live when its flags say so. -/
theorem live_at_zero {h : Heap} (hw : WellFormed h bs) (hpos : 0 < h.arenaBytes)
    (hflags : h.readFlags 0 = .ok (ALLOCATED ||| LIVE)) : ∃ t n f, LiveAt bs 0 t n f := by
  have htiles := hw.rep.tiles
  match bs with
  | [] => exact absurd htiles (by show ¬ 0 = _; omega)
  | b :: post =>
    have hmem : (0, b) ∈ placed (b :: post) := mem_cons_self
    have hk := hw.tidy.settled b mem_cons_self
    have hf := hw.rep.readFlags hmem hk.1
    rw [hflags] at hf
    have hview := view_of_mem hmem
    obtain ⟨n, k, v, f⟩ := b
    rcases k with _ | _ | _ | _ | ⟨t, _ | _⟩ <;>
      simp [Kind.flags, ALLOCATED, LIVE, MARKED] at hf
    exact ⟨t, n, f, hview⟩

/-- Two objects in a 64-byte arena, a root for the first: eight steps of the collector end idle. -/
theorem small_collection : ∃ s : HeapRun, HeapRun.Reachable ⟨HeaderFormat.select 64 4, 64⟩ 4 s ∧ s.reservations = [] ∧
      0 < s.heap.arenaBytes ∧ s.heap.liveObjects = 2 ∧ s.heap.readFlags 0 = .ok (ALLOCATED ||| LIVE) ∧
      ∃ c' h', run oneTypeImage (oneRoot ⟨8, by decide, by decide⟩) 8
        (new.start, s.heap) = .ok (c', h') ∧ c'.phase = .idle := by
  have h0 : HeapRun.Reachable ⟨HeaderFormat.select 64 4, 64⟩ 4 _ := .start _ rfl
  have h1 := h0.step _ _ (.reserve ⟨16, 3⟩) ⟨by decide, by decide, by decide⟩ rfl
  have h2 := h1.step _ _ (.commit ⟨0, 3⟩) (mem_singleton.mpr rfl) rfl
  have h3 := h2.step _ _ (.reserve ⟨16, 2⟩) ⟨by decide, by decide, by decide⟩ rfl
  have h4 := h3.step _ _ (.commit ⟨16, 2⟩) (mem_singleton.mpr rfl) rfl
  exact ⟨_, h4, rfl, by decide, rfl, rfl, _, _, rfl, rfl⟩

/-- The collection of the two objects keeps exactly the one that the root names. -/
theorem collection_keeps_the_reachable_small :
    ∃ s c' h', HeapRun.Reachable ⟨HeaderFormat.select 64 4, 64⟩ 4 s ∧ s.heap.liveObjects = 2 ∧
      run oneTypeImage (oneRoot ⟨8, by decide, by decide⟩) 8
        (new.start, s.heap) = .ok (c', h') ∧ c'.phase = .idle ∧
      ∃ bs' lists, Structural h' bs' lists ∧ (∃ t n f, LiveAt bs' 0 t n f) ∧
        ∀ o t n f, LiveAt bs' o t n f → o = 0 := by
  obtain ⟨s, hs, hres, hpos, hcount, hflags, c', h', hrun, hidle⟩ := small_collection
  refine ⟨s, c', h', hs, hcount, hrun, hidle, ?_⟩
  obtain ⟨bs, hw, hcollect⟩ := collection_keeps_the_reachable (.inr rfl) hs hres
  obtain ⟨t, n, f, hlive⟩ := live_at_zero hw hpos hflags
  obtain ⟨bs', lists, hstruct, hkeep, -⟩ :=
    (hcollect _ _ .new (closed_oneRoot ⟨t, n, f, hlive⟩)).1 8 c' h' hrun hidle
  refine ⟨bs', lists, hstruct, ⟨t, n, f, ?_⟩, ?_⟩
  · exact (hkeep 0 t n f).mpr ⟨hlive, 0,
      ⟨_, .runtime mem_cons_self, rfl, rfl⟩, .refl⟩
  · intro o t n f hl
    -- nothing is stored in a block, so a reachable block is the one the root names
    obtain ⟨o', ⟨ref, hroot, -, hbits⟩, hpath⟩ := ((hkeep o t n f).mp hl).2
    have ho' : o' = 0 := by
      rw [root_oneRoot hroot] at hbits
      have hbits : 0 + 8 = o' + 8 := hbits
      omega
    cases hpath with
    | refl => exact ho'
    | tail _ hedge =>
      obtain ⟨_, _, _, _, _, hholds, _⟩ := hedge
      exact absurd hholds not_holds_oneTypeImage

end Compukter
