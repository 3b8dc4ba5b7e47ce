/-
Runs of the heap.

A client of the heap holds reservations and references and may use only those.  `HeapRun` is the
heap together with what its client holds, `HeapOp` is one call, and `Reachable` are the states that
any finite sequence of allowed calls produces from a fresh heap, outside a collection.

An allowed call succeeds and keeps `RunSound` (`HeapOp.run_keeps`): the heap is sound, and everything the
client holds is still there.  The only failure is the rejected size of a reservation request.
-/
import Compukter.Heap.Live

namespace Compukter

open Bytes Fallible Tiling Heap List ReservedAllocation

/-- A heap with the reservations and references its client holds. -/
structure HeapRun where
  heap : Heap
  reservations : List ReservedAllocation
  references : List Ref32

inductive HeapOp where
  | reserve (request : AllocationRequest)
  | commit (reservation : ReservedAllocation)
  | abort (reservation : ReservedAllocation)
  | free (reference : Ref32)
  | zeroReserved (reservation : ReservedAllocation) (offset length : Nat)
  | writeReservedU32 (reservation : ReservedAllocation) (offset value : Nat)
  | writeReserved (reservation : ReservedAllocation) (offset : Nat) (bytes : List UInt8)
  | readPayload (reference : Ref32) (offset length : Nat)
  | writePayload (reference : Ref32) (offset : Nat) (bytes : List UInt8)
  | copyPayload (source : Ref32) (sourceOffset : Nat) (destination : Ref32)
      (destinationOffset length : Nat)

namespace HeapOp

/-- One call, with the bookkeeping of what the client holds. -/
def run (s : HeapRun) : HeapOp → Except VmFault HeapRun
  | reserve request => do
    match ← s.heap.reserve request with
    | (heap, some r) => return { s with heap := heap, reservations := r :: s.reservations }
    | (heap, none) => return { s with heap := heap }
  | commit r => do
    let (heap, reference) ← s.heap.commit r
    return ⟨heap, s.reservations.erase r, reference :: s.references⟩
  | abort r => do
    return { s with heap := ← s.heap.abort r, reservations := s.reservations.erase r }
  | free reference => do
    let (heap, _) ← s.heap.free reference
    return { s with heap := heap, references := s.references.filter (· ≠ reference) }
  | zeroReserved r offset length => do
    return { s with heap := ← s.heap.zeroReservedPayload r offset length }
  | writeReservedU32 r offset value => do
    return { s with heap := ← s.heap.writeReservedU32 r offset value }
  | writeReserved r offset bytes => do
    return { s with heap := ← s.heap.writeReserved r offset bytes }
  | readPayload reference offset length => do
    let _ ← s.heap.readPayload reference offset length
    return s
  | writePayload reference offset bytes => do
    return { s with heap := ← s.heap.writePayload reference offset bytes }
  | copyPayload source sourceOffset destination destinationOffset length => do
    let heap ← s.heap.copyPayloadRange source sourceOffset destination destinationOffset length
    return { s with heap := heap }

/-- A span lies inside the payload of the block at `block`. -/
def InBounds (h : Heap) (block offset length : Nat) : Prop :=
  ∃ size, h.blockSize block = .ok size ∧ offset + length ≤ size - h.payloadOffset

/-- The client uses what it holds, in bounds; requests are 32-bit words and name a known type. -/
def Allowed (typeCount : Nat) (s : HeapRun) : HeapOp → Prop
  | reserve request => request.blockBytes < 2 ^ 32 ∧ request.typeId < 2 ^ 32 ∧
      request.typeId < typeCount
  | commit r | abort r => r ∈ s.reservations
  | free reference => reference ∈ s.references
  | zeroReserved r offset length => r ∈ s.reservations ∧ InBounds s.heap r.block offset length
  | writeReservedU32 r offset _ => r ∈ s.reservations ∧ InBounds s.heap r.block offset 4
  | writeReserved r offset bytes =>
      r ∈ s.reservations ∧ InBounds s.heap r.block offset bytes.length
  | readPayload reference offset length =>
      reference ∈ s.references ∧ InBounds s.heap (reference.payload - 8) offset length ∧ length ≤ 8
  | writePayload reference offset bytes =>
      reference ∈ s.references ∧ InBounds s.heap (reference.payload - 8) offset bytes.length
  | copyPayload source sourceOffset destination destinationOffset length =>
      (source ∈ s.references ∧ InBounds s.heap (source.payload - 8) sourceOffset length) ∧
      destination ∈ s.references ∧ InBounds s.heap (destination.payload - 8) destinationOffset length

/-- A block that the call releases may be released. -/
def Prudent (s : HeapRun) : HeapOp → Prop
  | abort r => s.heap.Releasable r.block
  | free reference => s.heap.Releasable (reference.bits - OBJECT_TYPE_ID)
  | _ => True

end HeapOp

/-- The states of a client that runs on a fresh heap. -/
inductive HeapRun.Reachable (plan : StoragePlan) (typeCount : Nat) : HeapRun → Prop
  | start (heap : Heap) : Heap.new plan = .ok heap → Reachable plan typeCount ⟨heap, [], []⟩
  | step (s s' : HeapRun) (op : HeapOp) : Reachable plan typeCount s → op.Allowed typeCount s →
      op.run s = .ok s' → Reachable plan typeCount s'

/-! ## What holds in every state of a run -/

/-- The heap is sound and holds everything the client holds.  Only a strict one is known to have no reserved
block that nobody holds. -/
structure RunSound (g : Grade) (typeCount : Nat) (s : HeapRun) (bs : List Block) : Prop where
  heap : Sound g s.heap bs
  types : ∀ t, t < typeCount → t < 2 ^ 32 → t < s.heap.headerFormat.typeLimit
  distinct : (s.reservations.map ReservedAllocation.block).Nodup
  reserved : ∀ r ∈ s.reservations, (r.typeId < typeCount ∧ r.typeId < 2 ^ 32) ∧ ∃ n f, View bs r.block .reserved n f
  held : g.strict → ∀ o n f, View bs o .reserved n f → ∃ r ∈ s.reservations, r.block = o
  live : ∀ ref ∈ s.references, ∃ o t m n f, ref.bits = o + 8 ∧ View bs o (.live t m) n f

/-- The state of a client of a heap that was never restored. -/
abbrev RunOk (typeCount : Nat) (s : HeapRun) (bs : List Block) : Prop :=
  RunSound ⟨True, True, id⟩ typeCount s bs

theorem RunSound.unmarked {typeCount : Nat} {s : HeapRun} {bs : List Block} (hs : RunOk typeCount s bs) {ref : Ref32}
    (hr : ref ∈ s.references) : ∃ o t n f, ref.bits = o + 8 ∧ View bs o (.live t false) n f := by
  obtain ⟨o, t, m, n, f, hbits, v, hv⟩ := hs.live ref hr
  cases m with
  | false => exact ⟨o, t, n, f, hbits, v, hv⟩
  | true => exact absurd rfl (hs.heap.unmarked _ (mem_of_mem_place hv) t)

section Step

variable {g : Grade} {typeCount : Nat} {s : HeapRun} {bs : List Block}

variable {f : Nat → UInt8}

variable {r : ReservedAllocation} {l : List ReservedAllocation} {r' : ReservedAllocation}

theorem mem_erase_block (hnd : (l.map block).Nodup) (hr : r ∈ l) (hr' : r' ∈ l.erase r) :
    r' ∈ l ∧ r'.block ≠ r.block := by
  have hmem := mem_of_mem_erase hr'
  refine ⟨hmem, fun heq => ?_⟩
  have hl := List.Nodup.of_map _ hnd
  have : r' = r := inj_on_of_nodup_map hnd hmem hr heq
  rw [this, List.Nodup.mem_erase_iff hl] at hr'
  exact hr'.1 rfl

theorem mem_erase_of_block (hr' : r' ∈ l) (hne : r'.block ≠ r.block) : r' ∈ l.erase r := by
  have hne' : r' ≠ r := fun heq => hne (congrArg block heq)
  exact (mem_erase_of_ne hne').mpr hr'

/-- Everything the client holds besides one block survives when the views do. -/
theorem RunSound.after {s' : HeapRun} {bs' : List Block} {o : Nat} (hs : RunSound g typeCount s bs)
    (hw : Sound g s'.heap bs') (hf : s'.heap.headerFormat = s.heap.headerFormat)
    (hdistinct : (s'.reservations.map block).Nodup)
    (hkeep : ∀ o' k n f, k.allocated = true → o' ≠ o → (View bs o' k n f ↔ View bs' o' k n f))
    (hheld : ∀ r ∈ s.reservations, r.block ≠ o → r ∈ s'.reservations)
    (hself : g.strict → ∀ n f, View bs' o .reserved n f → ∃ r ∈ s'.reservations, r.block = o)
    (hres : ∀ r ∈ s'.reservations, (r ∈ s.reservations ∧ r.block ≠ o) ∨
      ((r.typeId < typeCount ∧ r.typeId < 2 ^ 32) ∧ ∃ n f, View bs' r.block .reserved n f))
    (href : ∀ ref ∈ s'.references, (ref ∈ s.references ∧ ref.bits ≠ o + 8) ∨
      ∃ o' t m n f, ref.bits = o' + 8 ∧ View bs' o' (.live t m) n f) : RunSound g typeCount s' bs' := by
  refine ⟨hw, ?_, hdistinct, ?_, ?_, ?_⟩
  · rw [hf]
    exact hs.types
  · intro r hr
    rcases hres r hr with ⟨hmem, hne⟩ | hnew
    · obtain ⟨ht, n, f, hv⟩ := hs.reserved r hmem
      exact ⟨ht, n, f, (hkeep _ _ _ _ rfl hne).mp hv⟩
    · exact hnew
  · intro hstrict o' n f hv
    by_cases ho : o' = o
    · subst ho
      exact hself hstrict n f hv
    · obtain ⟨r, hr, rfl⟩ := hs.held hstrict o' n f ((hkeep _ _ _ _ rfl ho).mpr hv)
      exact ⟨r, hheld r hr ho, rfl⟩
  · intro ref hr
    rcases href ref hr with ⟨hmem, hne⟩ | hnew
    · obtain ⟨o', t, m, n, f, hbits, hv⟩ := hs.live ref hmem
      exact ⟨o', t, m, n, f, hbits, (hkeep _ _ _ _ rfl (by omega)).mp hv⟩
    · exact hnew

/-- The call succeeds and the client's state stays sound. -/
def StaysSound (g : Grade) (typeCount : Nat) (s : HeapRun) (op : HeapOp) : Prop :=
  ∃ s' bs', op.run s = .ok s' ∧ RunSound g typeCount s' bs'

/-- A request for a size that no block has: too small or unaligned. -/
def HeapOp.Misfit (op : HeapOp) : Prop :=
  ∃ request, op = .reserve request ∧
    (request.blockBytes < minimumBlockBytes ∨ request.blockBytes % blockAlignment ≠ 0)

open HeapOp

theorem reserve_steps {request : AllocationRequest} (hs : RunSound g typeCount s bs)
    (ha : (reserve request).Allowed typeCount s) : StaysSound g typeCount s (.reserve request) ∨
      (reserve request).Misfit ∧ (reserve request).run s = .error .invalidStoragePlan := by
  obtain ⟨hb32, ht32, htc⟩ := ha
  by_cases hsize : request.blockBytes < minimumBlockBytes ∨ request.blockBytes % blockAlignment ≠ 0
  · refine .inr ⟨⟨request, rfl, hsize⟩, ?_⟩
    simp only [run, Heap.reserve]
    rw [if_pos hsize]
    rfl
  · rw [not_or, not_lt, not_not] at hsize
    have hv : ValidSize request.blockBytes := ⟨hsize.1, hsize.2, hb32⟩
    refine .inl ?_
    rcases reserve_spec (t := request.typeId) hs.heap hv with e | ⟨h', bs', o, n, f, e, hw, hf, -, hno, hview, -⟩
    · refine ⟨s, bs, ?_, hs⟩
      simp only [run, e, ok_bind, pure_eq_ok]
    · refine ⟨{ s with heap := h', reservations := ⟨o, request.typeId⟩ :: s.reservations }, bs', ?_,
        hs.after (o := o) hw hf ?_ ?_ ?_ ?_ ?_ ?_⟩
      · simp only [run, e, ok_bind, pure_eq_ok]
      · rw [map_cons, nodup_cons]
        refine ⟨fun hmem => ?_, hs.distinct⟩
        obtain ⟨r, hr, hro⟩ := mem_map.mp hmem
        obtain ⟨-, m, g, hvr⟩ := hs.reserved r hr
        rw [hro] at hvr
        exact hno _ _ _ rfl hvr
      · intro o' k m g hk hne
        rw [hview o' k m g hk]
        exact ⟨.inl, fun h => h.resolve_right fun h' => hne h'.1⟩
      · exact fun r hr _ => mem_cons_of_mem _ hr
      · exact fun _ m g _ => ⟨_, mem_cons_self, rfl⟩
      · intro r hr
        rw [mem_cons] at hr
        rcases hr with rfl | hr
        · exact .inr ⟨⟨htc, ht32⟩, n, f, (hview _ _ _ _ rfl).mpr (.inr ⟨rfl, rfl, rfl, rfl⟩)⟩
        · refine .inl ⟨hr, fun heq => ?_⟩
          obtain ⟨-, m, g, hvr⟩ := hs.reserved r hr
          rw [heq] at hvr
          exact hno _ _ _ rfl hvr
      · intro ref hr
        refine .inl ⟨hr, fun heq => ?_⟩
        obtain ⟨o', t, _, m, g, hbits, hvr⟩ := hs.live ref hr
        have : o' = o := by omega
        rw [this] at hvr
        exact hno _ _ _ rfl hvr

variable {ref : Ref32}

variable {o n offset length : Nat} {k : Kind} {op : HeapOp}

/-- The bounds that an allowed payload call promises, for the block itself. -/
theorem Heap.Held.inBounds {h : Heap} (hv : Held bs o k n) (hr : Rep h bs) (hin : HeapOp.InBounds h o offset length) :
    offset + length ≤ n - h.payloadOffset := by
  obtain ⟨_, hsize, hle⟩ := hin
  obtain ⟨ha, f, v, hplace⟩ := hv
  rw [hr.blockSize hplace (fun hhole : k = .hole => by rw [hhole] at ha; cases ha)] at hsize
  cases hsize
  exact hle

section

variable (hs : RunSound g typeCount s bs)
include hs

/-- A reference that is held does not name a reserved block. -/
theorem RunSound.reference_ne {o n : Nat} (hv : View bs o .reserved n f)
    (hr : ref ∈ s.references) : ref.bits ≠ o + 8 := by
  intro heq
  obtain ⟨o', t, _, m, g, hbits, hvr⟩ := hs.live ref hr
  have ho : o' = o := by omega
  rw [ho] at hvr
  have := (view_unique hs.heap.rep hv hvr).1
  cases this

/-- A reservation that is held does not name a live block. -/
theorem RunSound.reservation_ne {o t n : Nat} {mark : Bool}
    (hv : View bs o (.live t mark) n f) (hr : r ∈ s.reservations) : r.block ≠ o := by
  intro heq
  obtain ⟨-, m, g, hvr⟩ := hs.reserved r hr
  rw [heq] at hvr
  have := (view_unique hs.heap.rep hv hvr).1
  cases this

theorem commit_steps (ha : r ∈ s.reservations) : StaysSound g typeCount s (.commit r) := by
  obtain ⟨⟨htc, ht32⟩, n, f, hv⟩ := hs.reserved r ha
  have hne := fun ref (hr : ref ∈ s.references) => hs.reference_ne hv hr
  obtain ⟨pre, v, _, rfl, ho⟩ := view_split hv
  have hpos := hs.heap.rep.size_pos
  obtain ⟨h', ref, e, hbits, hf, hw⟩ := commit_spec (t := r.typeId) hs.heap rfl (hs.types _ htc ht32) ht32
  rw [← ho] at e hbits
  have hview := fun o' k m g => view_replace (o := o') (k := k) (n := m) (f := g)
    (d := ⟨n, .live r.typeId false, v, f⟩) hpos rfl
  rw [← ho] at hview
  refine ⟨⟨h', s.reservations.erase r, ref :: s.references⟩, _, ?_, hs.after (o := r.block) hw hf ?_ ?_ ?_ ?_ ?_ ?_⟩
  · simp only [run, e, ok_bind, pure_eq_ok]
  · exact hs.distinct.sublist ((erase_sublist).map _)
  · intro o' k m g _ hne'
    rw [hview o' k m g]
    exact ⟨fun hv' => .inl ⟨hv', hne'⟩, fun h => (h.resolve_right fun h' => hne' h'.1).1⟩
  · exact fun r' hr' hne' => mem_erase_of_block hr' hne'
  · intro hstrict m g hv'
    rcases (hview _ _ _ _).mp hv' with ⟨-, hne'⟩ | ⟨-, hk, -⟩
    · exact absurd rfl hne'
    · cases hk
  · intro r' hr'
    exact .inl (mem_erase_block hs.distinct ha hr')
  · intro ref' hr'
    rw [mem_cons] at hr'
    rcases hr' with rfl | hr'
    · exact .inr ⟨r.block, r.typeId, false, n, f, hbits, (hview _ _ _ _).mpr (.inr ⟨rfl, rfl, rfl, rfl⟩)⟩
    · exact .inl ⟨hr', hne ref' hr'⟩

theorem abort_steps (ha : r ∈ s.reservations) (hback : g.tagged ∨ s.heap.Releasable r.block) :
    StaysSound g typeCount s (.abort r) := by
  obtain ⟨-, n, f, hv⟩ := hs.reserved r ha
  have hne := fun ref (hr : ref ∈ s.references) => hs.reference_ne hv hr
  obtain ⟨pre, v, _, rfl, ho⟩ := view_split hv
  obtain ⟨h', bs', e, hf, hw, hview, -⟩ := abort_spec (t := r.typeId) hs.heap rfl (ho ▸ hback)
  rw [← ho] at e hview
  refine ⟨{ s with heap := h', reservations := s.reservations.erase r }, bs', ?_,
    hs.after (o := r.block) hw hf ?_ ?_ ?_ ?_ ?_ ?_⟩
  · simp only [run, e, ok_bind, pure_eq_ok]
  · exact hs.distinct.sublist ((erase_sublist).map _)
  · intro o' k m g hk hne'
    rw [hview o' k m g hk]
    exact ⟨fun hv' => ⟨hv', hne'⟩, And.left⟩
  · exact fun r' hr' hne' => mem_erase_of_block hr' hne'
  · exact fun _ m g hv' => absurd rfl ((hview _ _ _ _ rfl).mp hv').2
  · intro r' hr'
    exact .inl (mem_erase_block hs.distinct ha hr')
  · exact fun ref hr => .inl ⟨hr, hne ref hr⟩

theorem free_steps (ha : ref ∈ s.references) (hback : g.tagged ∨ s.heap.Releasable (ref.bits - OBJECT_TYPE_ID)) :
    StaysSound g typeCount s (.free ref) := by
  obtain ⟨o, t, _, n, f, hbits, hv⟩ := hs.live ref ha
  have hne := fun r (hr : r ∈ s.reservations) => hs.reservation_ne hv hr
  obtain ⟨pre, v, _, rfl, rfl⟩ := view_split hv
  rw [hbits] at hback
  obtain ⟨h', bs', e, hf, hw, hview⟩ := free_spec hs.heap rfl hbits hback
  refine ⟨{ s with heap := h', references := s.references.filter (· ≠ ref) }, bs', ?_,
    hs.after (o := total Block.size pre) hw hf hs.distinct ?_ ?_ ?_ ?_ ?_⟩
  · simp only [run, e, ok_bind, pure_eq_ok]
  · intro o' k m g hk hne'
    rw [hview o' k m g hk]
    exact ⟨fun hv' => ⟨hv', hne'⟩, And.left⟩
  · exact fun r hr _ => hr
  · exact fun _ m g hv' => absurd rfl ((hview _ _ _ _ rfl).mp hv').2
  · exact fun r hr => .inl ⟨hr, hne r hr⟩
  · intro ref' hr'
    rw [mem_filter, decide_eq_true_eq] at hr'
    refine .inl ⟨hr'.1, fun heq => hr'.2 (Ref32.ext ?_)⟩
    rw [heq, hbits]

/-- The block of a reservation the client holds. -/
theorem RunSound.reservation_held (hr : r ∈ s.reservations) : ∃ n, Held bs r.block .reserved n := by
  obtain ⟨-, n, f, hview⟩ := hs.reserved r hr
  exact ⟨n, rfl, f, hview⟩

/-- The block of a reference the client holds. -/
theorem RunSound.reference_held (hr : ref ∈ s.references) :
    ∃ o t m n, ref.bits = o + 8 ∧ ref.payload - 8 = o ∧ Held bs o (.live t m) n := by
  obtain ⟨o, t, m, n, f, hbits, hview⟩ := hs.live ref hr
  refine ⟨o, t, m, n, hbits, ?_, rfl, f, hview⟩
  obtain ⟨pre, v, _, rfl, rfl⟩ := view_split hview
  rw [Ref32.payload_of_managed (liveBlock_ok hs.heap.rep rfl hbits).2, hbits, Nat.add_sub_cancel]

/-- The shared tail of every call that writes into a held block. -/
theorem RunSound.write {h' : Heap} {lo count : Nat} (hv : Held bs o k n)
    (frame : Heap.Frame s.heap h' lo count) (hlo : o + s.heap.payloadOffset ≤ lo) (hhi : lo + count ≤ o + n)
    (hrun : op.run s = .ok { s with heap := h' }) : StaysSound g typeCount s op := by
  obtain ⟨bs', hw, hkept⟩ := hs.heap.write hv frame hlo hhi
  refine ⟨_, bs', hrun, hw, ?_, hs.distinct, fun r hr => ?_, fun hstrict o' n' f hview => ?_, fun ref hr => ?_⟩
  · rw [frame.format]
    exact hs.types
  · obtain ⟨ht, m, f, hview⟩ := hs.reserved r hr
    obtain ⟨-, g, hview'⟩ := (hkept _ _ _).mp ⟨rfl, f, hview⟩
    exact ⟨ht, m, g, hview'⟩
  · obtain ⟨-, g, hview'⟩ := (hkept _ _ _).mpr ⟨rfl, f, hview⟩
    exact hs.held hstrict _ _ _ hview'
  · obtain ⟨o', t, m, n', f, hbits, hview⟩ := hs.live ref hr
    obtain ⟨-, g, hview'⟩ := (hkept _ _ _).mp ⟨rfl, f, hview⟩
    exact ⟨o', t, m, n', g, hbits, hview'⟩

theorem RunSound.store (hv : Held bs o k n) (bytes : List UInt8)
    (hle : offset + bytes.length ≤ n - s.heap.payloadOffset)
    (hrun : op.run s = .ok
      { s with heap := s.heap.setArena (writeBytes s.heap.arena (o + s.heap.payloadOffset + offset) bytes) }) :
    StaysSound g typeCount s op := by
  obtain ⟨-, hend, -⟩ := hv.span hs.heap.rep _ _ hle
  exact hs.write hv (frame_writeBytes s.heap _ bytes) (by omega) hend hrun

theorem zeroReserved_steps (ha : (zeroReserved r offset length).Allowed typeCount s) :
    StaysSound g typeCount s (.zeroReserved r offset length) := by
  obtain ⟨hmem, hin⟩ := ha
  obtain ⟨n, hv⟩ := hs.reservation_held hmem
  have hle := hv.inBounds hs.heap.rep hin
  have hwrite : s.heap.zeroReservedPayload r offset length = _ := hv.zeroReserved hs.heap hle
  refine hs.store hv (replicate length 0) (by rw [length_replicate]; exact hle) ?_
  rw [run, hwrite, ok_bind, pure_eq_ok]

theorem writeReservedU32_steps {value : Nat} (ha : (writeReservedU32 r offset value).Allowed typeCount s) :
    StaysSound g typeCount s (.writeReservedU32 r offset value) := by
  obtain ⟨hmem, hin⟩ := ha
  obtain ⟨n, hv⟩ := hs.reservation_held hmem
  have hle := hv.inBounds hs.heap.rep hin
  have hwrite : s.heap.writeReservedU32 r offset value = _ := hv.writeReservedU32 hs.heap hle
  refine hs.store hv (leBytes value) hle ?_
  rw [run, hwrite, ok_bind, pure_eq_ok]

variable {bytes : List UInt8}

theorem writeReserved_steps (ha : (writeReserved r offset bytes).Allowed typeCount s) :
    StaysSound g typeCount s (.writeReserved r offset bytes) := by
  obtain ⟨hmem, hin⟩ := ha
  obtain ⟨n, hv⟩ := hs.reservation_held hmem
  have hle := hv.inBounds hs.heap.rep hin
  have hvalid : s.heap.validateReservation r = .ok () := hv.validate hs.heap
  refine hs.store hv bytes hle ?_
  simp only [run, Heap.writeReserved, hvalid, hv.length_lt hs.heap.rep hle, (hv.span hs.heap.rep _ _ hle).1,
    (hv.store hs.heap _ _ hle).1, ok_bind, pure_eq_ok, if_false]

theorem readPayload_steps (ha : (readPayload ref offset length).Allowed typeCount s) :
    StaysSound g typeCount s (.readPayload ref offset length) := by
  obtain ⟨hmem, hin, h8⟩ := ha
  obtain ⟨o, t, m, n, hbits, rfl, hv⟩ := hs.reference_held hmem
  refine ⟨s, bs, ?_, hs⟩
  rw [run, hv.readPayload hs.heap.rep hbits offset length (hv.inBounds hs.heap.rep hin) h8, ok_bind, pure_eq_ok]

theorem writePayload_steps (ha : (writePayload ref offset bytes).Allowed typeCount s) :
    StaysSound g typeCount s (.writePayload ref offset bytes) := by
  obtain ⟨hmem, hin⟩ := ha
  obtain ⟨o, t, m, n, hbits, rfl, hv⟩ := hs.reference_held hmem
  have hle := hv.inBounds hs.heap.rep hin
  refine hs.store hv bytes hle ?_
  simp only [run, Heap.writePayload, hv.liveBlock hs.heap.rep hbits, hv.length_lt hs.heap.rep hle,
    (hv.span hs.heap.rep _ _ hle).1, (hv.store hs.heap _ _ hle).1, ok_bind, pure_eq_ok, if_false]

theorem copyPayload_steps {source destination : Ref32} {sourceOffset destinationOffset length : Nat}
    (ha : (copyPayload source sourceOffset destination destinationOffset length).Allowed typeCount s) :
    StaysSound g typeCount s (.copyPayload source sourceOffset destination destinationOffset length) := by
  obtain ⟨⟨hsource, hin⟩, hdestination, hin'⟩ := ha
  obtain ⟨o, t, m, n, hbits, rfl, hv⟩ := hs.reference_held hsource
  obtain ⟨o', t', m', n', hbits', rfl, hv'⟩ := hs.reference_held hdestination
  have hle' := hv'.inBounds hs.heap.rep hin'
  obtain ⟨-, hend, -⟩ := hv'.span hs.heap.rep _ _ hle'
  refine hs.write hv' (frame_copyWithin s.heap (source.payload - 8 + s.heap.payloadOffset + sourceOffset) _ length)
    (by omega) hend ?_
  simp only [run, copyPayloadRange, hv.copySpan hs.heap.rep hbits (hv.inBounds hs.heap.rep hin),
    hv'.copySpan hs.heap.rep hbits' hle', ok_bind, pure_eq_ok]

end

/-- **One call.**  An allowed call succeeds and keeps the client's state sound; the only refusal is a
request whose size is too small or unaligned. -/
theorem HeapOp.run_keeps {op : HeapOp} (hs : RunSound g typeCount s bs) (ha : op.Allowed typeCount s)
    (hp : g.tagged ∨ op.Prudent s) :
    StaysSound g typeCount s op ∨ op.Misfit ∧ op.run s = .error .invalidStoragePlan := by
  cases op with
  | reserve => exact reserve_steps hs ha
  | commit => exact .inl (commit_steps hs ha)
  | abort => exact .inl (abort_steps hs ha hp)
  | free => exact .inl (free_steps hs ha hp)
  | zeroReserved => exact .inl (zeroReserved_steps hs ha)
  | writeReservedU32 => exact .inl (writeReservedU32_steps hs ha)
  | writeReserved => exact .inl (writeReserved_steps hs ha)
  | readPayload => exact .inl (readPayload_steps hs ha)
  | writePayload => exact .inl (writePayload_steps hs ha)
  | copyPayload => exact .inl (copyPayload_steps hs ha)

end Step

/-! ## Whole runs -/

section Whole

variable {plan : StoragePlan} {typeCount : Nat} {s : HeapRun}

/-- The header formats an image chooses from. -/
def StoragePlan.Selected (plan : StoragePlan) (typeCount : Nat) : Prop :=
  plan.headerFormat = .legacy ∨ plan.headerFormat = HeaderFormat.select plan.heapArenaBytes typeCount

/-- The formats an image chooses from fit its arena. -/
theorem StoragePlan.Selected.fits (hsel : plan.Selected typeCount) : plan.headerFormat.Fits plan.heapArenaBytes := by
  rcases hsel with hsel | hsel <;> rw [hsel]
  · exact HeaderFormat.legacy_fits _
  · exact HeaderFormat.select_fits _ _

/-- Every known type fits the type field. -/
theorem StoragePlan.Selected.typeLimit (hsel : plan.Selected typeCount) {t : Nat} (ht : t < typeCount)
    (h32 : t < 2 ^ 32) : t < plan.headerFormat.typeLimit := by
  rcases hsel with hsel | hsel <;> rw [hsel]
  · exact h32
  · exact HeaderFormat.select_typeLimit ht h32

/-- The arena sizes that `new` accepts. -/
theorem new_sizes {heap : Heap} (e : new plan = .ok heap) :
    32 ≤ plan.heapArenaBytes ∧ plan.heapArenaBytes % 16 = 0 ∧ plan.heapArenaBytes ≤ Ref32.maxPayload := by
  simp only [new] at e
  split at e
  · cases e
  · split at e
    · cases e
    · rename_i hsize
      rw [not_or, not_or, not_lt, not_not, not_lt] at hsize
      exact hsize

theorem runOk_start {heap : Heap} (hsel : plan.Selected typeCount) (e : new plan = .ok heap) :
    ∃ bs, RunOk typeCount ⟨heap, [], []⟩ bs := by
  obtain ⟨hlo, h16, hhi⟩ := new_sizes e
  obtain ⟨h, _, e', hf, -, hw⟩ := new_spec hlo h16 hhi hsel.fits
  have heq : heap = h := Except.ok.inj (e.symm.trans e')
  subst heq
  refine ⟨_, hw, fun t ht h32 => ?_, nodup_nil, by simp, ?_, by simp⟩
  · rw [hf]
    exact hsel.typeLimit ht h32
  · rintro - o n f ⟨v, hv⟩
    simp [placed] at hv

/-- **Runs stay sound.**  Induction over the run, with one call by `HeapOp.run_keeps`. -/
theorem HeapRun.Reachable.runOk (hsel : plan.Selected typeCount)
    (hs : HeapRun.Reachable plan typeCount s) : ∃ bs, RunOk typeCount s bs := by
  induction hs with
  | start _ e => exact runOk_start hsel e
  | step _ _ op _ ha e ih =>
    obtain ⟨bs, hok⟩ := ih
    rcases op.run_keeps hok ha (.inl trivial) with ⟨t, bs', e', hok'⟩ | ⟨-, e'⟩
    · cases e.symm.trans e'
      exact ⟨bs', hok'⟩
    · cases e.symm.trans e'

/-- **The structural invariant over whole runs.**  Whatever sequence of calls a client makes with the
reservations and references it still holds, the heap is structurally sound after every one of them,
and no call reports a corrupt heap. -/
theorem heap_runs_keep_structure (hsel : plan.Selected typeCount)
    (hs : HeapRun.Reachable plan typeCount s) :
    (∃ bs lists, Structural s.heap bs lists) ∧
      ∀ op : HeapOp, op.Allowed typeCount s → op.run s ≠ .error .corruptHeap := by
  obtain ⟨bs, hok⟩ := hs.runOk hsel
  refine ⟨⟨bs, hok.heap.structural⟩, fun op ha e => ?_⟩
  rcases op.run_keeps hok ha (.inl trivial) with ⟨t, bs', e', -⟩ | ⟨-, e'⟩ <;> cases e.symm.trans e'

/-- A run on a 64-byte arena that reserves, initialises and commits an object. -/
theorem heap_runs_keep_structure_small :
    ∃ s, HeapRun.Reachable ⟨HeaderFormat.select 64 4, 64⟩ 4 s ∧
      s.references.map Ref32.bits = [8] ∧ (∃ bs lists, Structural s.heap bs lists) ∧
      ∀ op : HeapOp, op.Allowed 4 s → op.run s ≠ .error .corruptHeap := by
  have h0 : HeapRun.Reachable ⟨HeaderFormat.select 64 4, 64⟩ 4 _ := .start _ rfl
  have h1 := h0.step _ _ (.reserve ⟨32, 3⟩) ⟨by decide, by decide, by decide⟩ rfl
  have h2 := h1.step _ _ (.writeReservedU32 ⟨0, 3⟩ 0 7)
    ⟨mem_singleton.mpr rfl, 32, rfl, by decide⟩ rfl
  have h3 := h2.step _ _ (.commit ⟨0, 3⟩) (mem_singleton.mpr rfl) rfl
  exact ⟨_, h3, rfl, heap_runs_keep_structure (.inr rfl) h3⟩

end Whole

end Compukter
