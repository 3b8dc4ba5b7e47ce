/-
Allocation after a collection.

A request that finds no block starts a collection and is tried again when the collection is idle.  The
search of the free lists is not complete by itself: a fitting block can hide behind a smaller head of
its own class.  But at the end of a sweep the hint names a largest free block (`Collected.hint`), so the
second try fails only if no free block is large enough (`reserve_none_iff`).

`HeapRun.Collects` are the states that heap operations and finished collections reach in any order.
-/
import Compukter.Gc.Collection

namespace Compukter

open Bytes Fallible Tiling Heap Marking

section Search

variable {h : Heap} {bs : List Block} {r t : Nat}

/-- A reservation is refused only by the search. -/
theorem findSuitable_of_reserve_none {h' : Heap} (e : h.reserve ⟨r, t⟩ = .ok (h', none)) :
    h.findSuitable r = .ok none := by
  unfold reserve at e
  split at e
  · cases e
  · obtain ⟨found, hfound, e⟩ := bind_eq_ok.mp e
    cases found with
    | none => exact hfound
    | some =>
      obtain ⟨_, -, e⟩ := bind_eq_ok.mp e
      split at e
      · cases e
      · simp only [bind_eq_ok] at e
        obtain ⟨_, -, h1, -, ⟨h2, _⟩, -, h3, -, _, -, e⟩ := e
        cases e

/-- What the search returns is a free block that is large enough. -/
theorem findSuitable_fits {o : Nat} (hr : Rep h bs) (hv : ValidSize r) (e : h.findSuitable r = .ok (some o)) :
    ∃ b, (o, b) ∈ placed bs ∧ b.kind = .free ∧ h.blockSize o = .ok b.size ∧ r ≤ b.size := by
  obtain ⟨L, hl⟩ := hr.lists
  have hfind := findSuitable_spec hl hv
  rw [e] at hfind
  obtain ⟨n, ⟨b, hb, hk, rfl⟩, hle⟩ := hfind
  exact ⟨b, hb, hk, hr.blockSize hb (by simp [hk]), hle⟩

/-- **With an exact hint the search is complete.** -/
theorem reserve_none_iff (hw : WellFormed h bs)
    (hhint : ∀ b ∈ bs, b.kind = .free → h.HintCovers bs b.size) (hv : ValidSize r) :
    (∃ h', h.reserve ⟨r, t⟩ = .ok (h', none)) ↔ ¬ ∃ o b, (o, b) ∈ placed bs ∧ b.kind = .free ∧ r ≤ b.size := by
  obtain ⟨L, hl⟩ := hw.rep.lists
  have hfind := findSuitable_spec hl hv
  constructor
  · rintro ⟨h', e⟩ ⟨o, b, hb, hk, hle⟩
    rw [findSuitable_of_reserve_none e] at hfind
    exact hfind ((hhint b (mem_of_mem_place hb) hk).mono (fun _ hm => hm) hle)
  · intro hno
    match hres : h.findSuitable r with
    | .error fault =>
      rw [hres] at hfind
      exact hfind.elim
    | .ok none =>
      have hlo := hv.lo
      have hal := hv.aligned
      refine ⟨h, ?_⟩
      simp only [reserve, hres, ok_bind, pure_eq_ok]
      rw [if_neg (by unfold minimumBlockBytes blockAlignment; omega)]
    | .ok (some o) =>
      -- the block that was found is one of the free blocks
      obtain ⟨b, hb, hk, -, hle⟩ := findSuitable_fits hw.rep hv hres
      exact absurd ⟨o, b, hb, hk, hle⟩ hno

end Search

/-! ## Runs with collections -/

/-- The states that heap operations and finished collections reach.  After a collection the program holds
references that are among its roots. -/
inductive HeapRun.Collects (plan : StoragePlan) (typeCount : Nat) : HeapRun → Prop
  | start (heap : Heap) : Heap.new plan = .ok heap → Collects plan typeCount ⟨heap, [], []⟩
  | step (s s' : HeapRun) (op : HeapOp) : Collects plan typeCount s → op.Allowed typeCount s →
      op.run s = .ok s' → Collects plan typeCount s'
  | collect (s : HeapRun) (bs : List Block) (image : ImageView) (roots : RootSet) (c c' : Collector)
      (k : Nat) (heap : Heap) (references : List Ref32) : Collects plan typeCount s →
      s.reservations = [] → WellFormed s.heap bs → Closed image roots s.heap.payloadOffset bs →
      Collector.run image roots k (c.start, s.heap) = .ok (c', heap) → c'.phase = .idle →
      (∀ ref ∈ references, Root image roots ref ∧ ref.domain = .managed) →
      Collects plan typeCount ⟨heap, [], references⟩

/-- Runs without a collection are among them. -/
theorem HeapRun.Reachable.collects {plan : StoragePlan} {typeCount : Nat} {s : HeapRun}
    (hs : s.Reachable plan typeCount) : s.Collects plan typeCount := by
  induction hs with
  | start heap e => exact .start heap e
  | step s s' op _ ha e ih => exact .step s s' op ih ha e

section Runs

variable {plan : StoragePlan} {typeCount : Nat} {s : HeapRun} {image : ImageView} {roots : RootSet}
  {h₀ h : Heap} {bs₀ : List Block} {c : Collector}

theorem HeapRun.Collects.runOk (hsel : plan.Selected typeCount) (hs : s.Collects plan typeCount) :
    ∃ bs, RunOk typeCount s bs := by
  induction hs with
  | start _ e => exact runOk_start hsel e
  | step _ _ op _ ha e ih =>
    obtain ⟨bs, hok⟩ := ih
    rcases op.run_keeps hok ha (.inl trivial) with ⟨s'', bs'', e', hok'⟩ | ⟨-, e'⟩
    · cases e.symm.trans e'
      exact ⟨bs'', hok'⟩
    · cases e.symm.trans e'
  | collect _ _ _ _ _ _ k _ _ _ _ hw hclosed e hidle hrefs ih =>
    obtain ⟨_, hok⟩ := ih
    obtain ⟨bs', hcol⟩ := run_collected hw hclosed k e hidle
    refine ⟨bs', hcol.heap, ?_, List.nodup_nil, List.forall_mem_nil _,
      fun _ o n f hv => absurd hv (hcol.unreserved o n f), fun ref hmem => ?_⟩
    · rw [hcol.format]
      exact hok.types
    · obtain ⟨hroot, hd⟩ := hrefs ref hmem
      obtain ⟨o, t, n, f, hbits, hl⟩ := hclosed.roots ref hroot hd
      exact ⟨o, t, false, n, f, hbits, (hcol.live o t n f).mpr ⟨hl, o, ⟨ref, hroot, hd, hbits⟩, .refl⟩⟩

/-- **Operations and collections mix.**  In every run of both the heap is well formed, what the client holds is
live, and every operation that is allowed succeeds and stays in such runs; a reservation of a size that no
block has is refused. -/
theorem mixed_runs_stay_sound (hsel : plan.Selected typeCount) (hs : s.Collects plan typeCount) :
    ∃ bs, WellFormed s.heap bs ∧ (∀ ref ∈ s.references, ∃ o t n f, ref.bits = o + 8 ∧ LiveAt bs o t n f) ∧
      ∀ op : HeapOp, op.Allowed typeCount s →
        (∃ s', op.run s = .ok s' ∧ s'.Collects plan typeCount) ∨
          op.Misfit ∧ op.run s = .error .invalidStoragePlan := by
  obtain ⟨bs, hok⟩ := hs.runOk hsel
  refine ⟨bs, hok.heap, fun ref hr => hok.unmarked hr, fun op ha => (op.run_keeps hok ha (.inl trivial)).imp_left fun hstep => ?_⟩
  obtain ⟨s', -, hrun, -⟩ := hstep
  exact ⟨s', hrun, .step s s' op hs ha hrun⟩

/-- Two objects are committed, the collection keeps the one that the root names, and a reservation follows. -/
theorem mixed_runs_stay_sound_collected :
    ∃ s s', s.Collects ⟨HeaderFormat.select 64 4, 64⟩ 4 ∧ s.references.map Ref32.bits = [8] ∧
      (HeapOp.reserve ⟨16, 2⟩).run s = .ok s' ∧ s'.Collects ⟨HeaderFormat.select 64 4, 64⟩ 4 ∧
      ∃ bs t n f, WellFormed s.heap bs ∧ LiveAt bs 0 t n f := by
  obtain ⟨s₀, hs₀, hres, hpos, -, hflags, c', h, hrun, hidle⟩ := small_collection
  obtain ⟨bs₀, hok⟩ := hs₀.runOk (.inr rfl)
  have hs := hs₀.collects.collect s₀ bs₀ _ _ _ c' 8 h [⟨8, by decide, by decide⟩] hres hok.heap
    (closed_oneRoot (live_at_zero hok.heap hpos hflags)) hrun hidle
    (List.forall_mem_singleton.mpr ⟨.runtime List.mem_cons_self, rfl⟩)
  obtain ⟨bs, hw, hlive, hnext⟩ := mixed_runs_stay_sound (.inr rfl) hs
  obtain ⟨o, t, n, f, hbits, hl⟩ := hlive _ List.mem_cons_self
  obtain rfl : o = 0 := Nat.add_right_cancel hbits.symm
  rcases hnext (.reserve ⟨16, 2⟩) ⟨by decide, by decide, by decide⟩ with
    ⟨s', hstep, hs'⟩ | ⟨⟨request, heq, hmisfit⟩, -⟩
  · exact ⟨_, s', hs, rfl, hstep, hs', bs, t, n, f, hw, hl⟩
  · cases heq
    exact absurd hmisfit (by decide)

/-- The blocks tile the heap at every step of a collection. -/
theorem CollectInv.exists_rep {waiting : List (Nat × Nat)} {r : Nat}
    (hi : CollectInv image roots h₀ bs₀ c h waiting r) : ∃ bs, Rep h bs := by
  cases hi with
  | roots bs _ _ _ hi | mark bs _ _ _ hi => exact ⟨bs, hi.marks.state.rep⟩
  | sweep _ _ done rest _ _ _ _ _ _ _ hs => exact ⟨done ++ rest, hs.rep⟩
  | idle bs _ hc => exact ⟨bs, hc.heap.rep⟩

end Runs

/-- **The retry is complete, and the search is sound.**  Take any well-formed heap and roots whose managed
references, like those stored in live blocks, name live blocks (`Closed`).  When a collection of it is idle
again, a request is refused exactly if no free block is as large.  And in every heap of a run, also in the
middle of such a collection, what the search returns is a free block that is large enough. -/
theorem retry_is_complete :
    (∀ (image : ImageView) (roots : RootSet) (c c' : Collector) (k : Nat) (h₀ h : Heap)
      (bs₀ : List Block), WellFormed h₀ bs₀ → Closed image roots h₀.payloadOffset bs₀ →
      Collector.run image roots k (c.start, h₀) = .ok (c', h) → c'.phase = .idle →
      ∃ bs lists, Structural h bs lists ∧
        ∀ n t, 16 ≤ n → n % 8 = 0 → n < 2 ^ 32 → ((∃ h', h.reserve ⟨n, t⟩ = .ok (h', none)) ↔
          ¬ ∃ o b, (o, b) ∈ placed bs ∧ b.kind = .free ∧ n ≤ b.size)) ∧
    ∀ (plan : StoragePlan) (typeCount : Nat) (s : HeapRun), plan.Selected typeCount →
      s.Collects plan typeCount → ∃ bs₀, WellFormed s.heap bs₀ ∧
        ∀ (image : ImageView) (roots : RootSet) (c c' : Collector) (k : Nat) (h : Heap),
          Closed image roots s.heap.payloadOffset bs₀ →
          Collector.run image roots k (c.start, s.heap) = .ok (c', h) →
          ∃ bs, Rep h bs ∧ ∀ n o, 16 ≤ n → n % 8 = 0 → n < 2 ^ 32 →
            h.findSuitable n = .ok (some o) → ∃ b, (o, b) ∈ placed bs ∧ b.kind = .free ∧
              h.blockSize o = .ok b.size ∧ n ≤ b.size := by
  refine ⟨fun image roots c c' k h₀ h bs₀ hw hclosed e hidle => ?_,
    fun plan typeCount s hsel hs => ?_⟩
  · obtain ⟨bs, hcol⟩ := run_collected hw hclosed k e hidle
    obtain ⟨lists, hstruct⟩ := hcol.heap.structural
    exact ⟨bs, lists, hstruct, fun n t hlo h8 hhi => reserve_none_iff hcol.heap hcol.hint ⟨hlo, h8, hhi⟩⟩
  · obtain ⟨bs₀, hok⟩ := hs.runOk hsel
    refine ⟨bs₀, hok.heap, fun image roots c c' k h hclosed e => ?_⟩
    obtain ⟨_, r, hi⟩ := run_collectInv hok.heap hclosed k (collectInv_start hok.heap) e
    obtain ⟨bs, hr⟩ := hi.exists_rep
    exact ⟨bs, hr, fun n o hlo h8 hhi hfound => findSuitable_fits hr ⟨hlo, h8, hhi⟩ hfound⟩

/-- After the collection of two objects, one of them kept, 40 bytes are refused if no block has them. -/
theorem retry_is_complete_small :
    ∃ s c' h, HeapRun.Reachable ⟨HeaderFormat.select 64 4, 64⟩ 4 s ∧
      Collector.run oneTypeImage (oneRoot ⟨8, by decide, by decide⟩) 8
        (Collector.new.start, s.heap) = .ok (c', h) ∧ c'.phase = .idle ∧
      ∃ bs lists, Structural h bs lists ∧ ((∃ h', h.reserve ⟨40, 3⟩ = .ok (h', none)) ↔
        ¬ ∃ o b, (o, b) ∈ placed bs ∧ b.kind = .free ∧ 40 ≤ b.size) := by
  obtain ⟨s, hs, hres, hpos, hcount, hflags, c', h, hrun, hidle⟩ := small_collection
  obtain ⟨bs₀, hok⟩ := hs.runOk (.inr rfl)
  obtain ⟨bs, lists, hstruct, hretry⟩ := retry_is_complete.1 _ _ _ _ _ _ _ bs₀ hok.heap
    (closed_oneRoot (live_at_zero hok.heap hpos hflags)) hrun hidle
  exact ⟨s, c', h, hs, hrun, hidle, bs, lists, hstruct,
    hretry 40 3 (by decide) (by decide) (by decide)⟩

end Compukter
