/-
Marking follows the object graph.

`MarkState` relates the heap in the middle of marking to the blocks `bs₀` before the collection: the same
blocks, some of them marked, with the gray queue in the tags.  Beside it stands the tri-colour invariant over
the object graph of `bs₀`, which is the graph throughout, because payload bytes do not change.

What is still to be visited (`Todo`) are the pending root reads first and the rest of the object being scanned
later.  One step either fails to read something, or visits exactly one reference, or replaces the empty rest
by the references of a dequeued object.
-/
import Compukter.Gc.Graph

namespace Compukter

open Bytes Fallible Tiling Heap Marking Collector List

/-! ## The blocks while marking -/

section Recolour

variable {bs₀ bs : List Block} {o t n : Nat} {f : Memory}

theorem placed_recolour (h : bs₀.Forall₂ Recolour bs) :
    (placed bs₀).Forall₂ (fun e e' => e'.1 = e.1 ∧ Recolour e.2 e'.2) (placed bs) :=
  place_forall₂ (fun _ _ hR => hR.1) h

theorem forall₂_mem_left {α : Type} {R : α → α → Prop} {l l' : List α} (h : l.Forall₂ R l') {a : α}
    (ha : a ∈ l) : ∃ b ∈ l', R a b := by
  induction h with
  | nil => cases ha
  | cons h1 _ ih =>
    rw [mem_cons] at ha
    rcases ha with rfl | ha
    · exact ⟨_, by simp, h1⟩
    · obtain ⟨b, hb, hR⟩ := ih ha
      exact ⟨b, mem_cons_of_mem _ hb, hR⟩

/-- A live block of the beginning, as it is now. -/
theorem liveAt_now (h : bs₀.Forall₂ Recolour bs) (hl : LiveAt bs₀ o t n f) :
    ∃ b m, (o, b) ∈ placed bs ∧ b.kind = .live t m ∧ b.size = n ∧ b.bytes = f := by
  obtain ⟨v, hv⟩ := hl
  obtain ⟨⟨o', b⟩, hb, ho, hR⟩ := forall₂_mem_left (placed_recolour h) hv
  subst ho
  rcases hR.2.2 with hk | ⟨t', hk, hk'⟩
  · exact ⟨b, false, hb, hk, hR.1, hR.2.1⟩
  · cases hk
    exact ⟨b, true, hb, hk', hR.1, hR.2.1⟩

/-- A live block now was live at the beginning. -/
theorem liveAt_before (h : bs₀.Forall₂ Recolour bs) {b : Block} {m : Bool} (hb : (o, b) ∈ placed bs)
    (hk : b.kind = .live t m) (hm : ∀ a ∈ bs₀, Clean a.kind) : LiveAt bs₀ o t b.size b.bytes := by
  obtain ⟨⟨o', a⟩, ha, ho, hR⟩ := forall₂_mem_left (placed_recolour h).flip hb
  subst ho
  refine ⟨a.link, ?_⟩
  have hkind : a.kind = .live t false := by
    rcases hR.2.2 with hsame | ⟨t', hk', hk''⟩
    · rw [hk] at hsame
      cases m with
      | false => exact hsame.symm
      | true => cases (hm a (mem_of_mem_place ha) t true hsame.symm).1
    · rw [hk] at hk''
      cases hk''
      exact hk'
  rw [hR.1, hR.2.1, ← hkind]
  exact ha

theorem LiveAt.type_lt (hl : LiveAt bs₀ o t n f) (hclean : ∀ a ∈ bs₀, Clean a.kind) : t < 2 ^ 32 := by
  obtain ⟨v, hv⟩ := hl
  exact (hclean _ (mem_of_mem_place hv) t false rfl).2

end Recolour

/-! ## The state of marking -/

structure MarkState (h₀ : Heap) (bs₀ : List Block) (c : Collector) (h : Heap) (bs : List Block)
    (gray : List Nat) : Prop where
  kept : Kept h₀ h
  rep : Rep h bs
  recolour : bs₀.Forall₂ Recolour bs
  queue : Queue bs gray c.grayHead c.grayTail

theorem MarkState.congr {h₀ h : Heap} {bs₀ bs : List Block} {c c' : Collector} {gray : List Nat}
    (hs : MarkState h₀ bs₀ c h bs gray) (hh : c'.grayHead = c.grayHead)
    (ht : c'.grayTail = c.grayTail) : MarkState h₀ bs₀ c' h bs gray :=
  ⟨hs.kept, hs.rep, hs.recolour, by rw [hh, ht]; exact hs.queue⟩

theorem MarkState.payloadOffset {h₀ h : Heap} {bs₀ bs : List Block} {c : Collector}
    {gray : List Nat} (hs : MarkState h₀ bs₀ c h bs gray) : h.payloadOffset = h₀.payloadOffset := by
  show h.headerFormat.bytes = h₀.headerFormat.bytes
  rw [hs.kept.format]

/-- The blocks that the references of `P` name. -/
def Todo (P : Ref32 → Prop) (o : Nat) : Prop := ∃ ref, P ref ∧ Names ref o

variable {P P' : Ref32 → Prop}

/-- The references that the value itself and `P'` have in common with `P`. -/
theorem todo_visit {ref : Ref32} {o : Nat} (hn : Names ref o)
    (hP : ∀ r, P r ↔ r = ref ∨ P' r) (y : Nat) : Todo P y ↔ y = o ∨ Todo P' y := by
  constructor
  · rintro ⟨r, hr, hy⟩
    rcases (hP r).mp hr with rfl | hr
    · have := hy.2.symm.trans hn.2
      exact .inl (by omega)
    · exact .inr ⟨r, hr, hy⟩
  · rintro (rfl | ⟨r, hr, hy⟩)
    · exact ⟨ref, (hP ref).mpr (.inl rfl), hn⟩
    · exact ⟨r, (hP r).mpr (.inr hr), hy⟩

/-- References that name no block leave nothing to visit. -/
theorem todo_skip (hP : ∀ r, r.domain = .managed → (P r ↔ P' r)) (y : Nat) : Todo P' y ↔ Todo P y :=
  ⟨fun ⟨r, hr, hy⟩ => ⟨r, (hP r hy.1).mpr hr, hy⟩, fun ⟨r, hr, hy⟩ => ⟨r, (hP r hy.1).mp hr, hy⟩⟩

/-! ## The object being scanned -/

/-- The references of the scanned object that are still to be followed. -/
def ScanTodo (image : ImageView) (po : Nat) (bs₀ : List Block) : Option Scan → Ref32 → Prop
  | none, _ => False
  | some (.object r next), ref => ∃ o t n f layout, r.bits = o + 8 ∧ LiveAt bs₀ o t n f ∧
      layoutOf image t = .ok (.object layout) ∧
      ∃ offset ∈ layout.referenceOffsets.drop next, refAt f (po + offset) = some ref
  | some (.referenceArray r next length), ref => ∃ o t n f, r.bits = o + 8 ∧ LiveAt bs₀ o t n f ∧
      ∃ i, next ≤ i ∧ i < length ∧ refAt f (po + (8 + i * 4)) = some ref

/-- The scan cursor stands on a reference of a live block, with `left` references left. -/
def ScanOk (image : ImageView) (po : Nat) (bs₀ : List Block) : Option Scan → Nat → Prop
  | none, left => left = 0
  | some (.object r next), left => ∃ o t n f layout, r.bits = o + 8 ∧ LiveAt bs₀ o t n f ∧
      layoutOf image t = .ok (.object layout) ∧ next < layout.referenceOffsets.length ∧
      left = layout.referenceOffsets.length - next
  | some (.referenceArray r next length), left => ∃ o t n f, r.bits = o + 8 ∧ LiveAt bs₀ o t n f ∧
      layoutOf image t = .ok (.array .ref) ∧ length = lengthAt f po ∧ next < length ∧
      left = length - next

/-- The references that the collector follows in a block of type `t`. -/
def references (image : ImageView) (po t : Nat) (f : Memory) : Nat :=
  match layoutOf image t with
  | .ok (.object layout) => layout.referenceOffsets.length
  | .ok (.array .ref) => lengthAt f po
  | _ => 0

/-- The layouts of the image fit the live blocks. -/
structure Typed (image : ImageView) (po : Nat) (bs₀ : List Block) : Prop where
  layout : ∀ o t n f, LiveAt bs₀ o t n f → ∃ layout, layoutOf image t = .ok layout
  field : ∀ o t n f layout, LiveAt bs₀ o t n f → layoutOf image t = .ok (.object layout) →
    ∀ offset ∈ layout.referenceOffsets, offset + 4 ≤ n - po
  element : ∀ o t n f, LiveAt bs₀ o t n f → layoutOf image t = .ok (.array .ref) →
    8 + lengthAt f po * 4 ≤ n - po

section Scan

variable {image : ImageView} {po o t n : Nat} {bs₀ : List Block} {f : Memory} {h₀ : Heap}
  {r ref : Ref32} {next length : Nat} {layout : ObjectLayout}

theorem liveAt_unique (hr : Rep h₀ bs₀) {t' n' : Nat} {f' : Memory} (hl : LiveAt bs₀ o t n f)
    (hl' : LiveAt bs₀ o t' n' f') : t' = t ∧ n' = n ∧ f' = f := by
  obtain ⟨v, hv⟩ := hl
  obtain ⟨v', hv'⟩ := hl'
  have heq := hr.unique hv' hv
  simp only [Block.mk.injEq, Kind.live.injEq] at heq
  exact ⟨heq.2.1.1, heq.1, heq.2.2.2⟩

variable (hr : Rep h₀ bs₀) (hbits : r.bits = o + 8) (hl : LiveAt bs₀ o t n f)

include hr hbits hl

theorem scanTodo_object (hlayout : layoutOf image t = .ok (.object layout)) :
    ScanTodo image po bs₀ (some (.object r next)) ref ↔
      ∃ offset ∈ layout.referenceOffsets.drop next, refAt f (po + offset) = some ref := by
  constructor
  · rintro ⟨o', t', n', f', _, hbits', hl', hlayout', hex⟩
    have ho : o' = o := by omega
    subst ho
    obtain ⟨rfl, rfl, rfl⟩ := liveAt_unique hr hl hl'
    have heq := hlayout'.symm.trans hlayout
    simp only [Except.ok.injEq, RuntimeTypeLayout.object.injEq] at heq
    rw [← heq]
    exact hex
  · exact fun hex => ⟨o, t, n, f, layout, hbits, hl, hlayout, hex⟩

theorem scanTodo_array : ScanTodo image po bs₀ (some (.referenceArray r next length)) ref ↔
      ∃ i, next ≤ i ∧ i < length ∧ refAt f (po + (8 + i * 4)) = some ref := by
  constructor
  · rintro ⟨o', t', n', f', hbits', hl', hex⟩
    have ho : o' = o := by omega
    subst ho
    obtain ⟨rfl, rfl, rfl⟩ := liveAt_unique hr hl hl'
    exact hex
  · exact fun hex => ⟨o, t, n, f, hbits, hl, hex⟩

/-- Following the reference at the object cursor. -/
theorem scanTodo_object_step (hlayout : layoutOf image t = .ok (.object layout)) {offset : Nat}
    (hnext : layout.referenceOffsets[next]? = some offset) : ScanTodo image po bs₀ (some (.object r next)) ref ↔
      RuntimeValue.ofReference (refAt f (po + offset)) = .reference ref ∨
      ScanTodo image po bs₀ (if next + 1 < layout.referenceOffsets.length then
        some (.object r (next + 1)) else none) ref := by
  obtain ⟨hlt, hget⟩ := List.getElem?_eq_some_iff.mp hnext
  rw [scanTodo_object hr hbits hl hlayout, drop_eq_getElem_cons hlt, hget, ofReference_eq]
  have hrest : ScanTodo image po bs₀ (if next + 1 < layout.referenceOffsets.length then
        some (.object r (next + 1)) else none) ref ↔
      ∃ offset ∈ layout.referenceOffsets.drop (next + 1), refAt f (po + offset) = some ref := by
    by_cases hmore : next + 1 < layout.referenceOffsets.length
    · rw [if_pos hmore, scanTodo_object hr hbits hl hlayout]
    · rw [if_neg hmore, drop_eq_nil_of_le (by omega)]
      simp [ScanTodo]
  rw [hrest]
  simp

/-- Following the reference at the array cursor. -/
theorem scanTodo_array_step (hnext : next < length) : ScanTodo image po bs₀ (some (.referenceArray r next length)) ref ↔
      RuntimeValue.ofReference (refAt f (po + (8 + next * 4))) = .reference ref ∨
      ScanTodo image po bs₀ (if next + 1 < length then some (.referenceArray r (next + 1) length) else none) ref := by
  rw [scanTodo_array hr hbits hl, ofReference_eq]
  have hrest : ScanTodo image po bs₀ (if next + 1 < length then
        some (.referenceArray r (next + 1) length) else none) ref ↔
      ∃ i, next + 1 ≤ i ∧ i < length ∧ refAt f (po + (8 + i * 4)) = some ref := by
    by_cases hmore : next + 1 < length
    · rw [if_pos hmore, scanTodo_array hr hbits hl]
    · rw [if_neg hmore]
      simp only [ScanTodo, false_iff]
      rintro ⟨i, h1, h2, -⟩
      omega
  rw [hrest]
  constructor
  · rintro ⟨i, h1, h2, hi⟩
    by_cases heq : i = next
    · exact .inl (heq ▸ hi)
    · exact .inr ⟨i, by omega, h2, hi⟩
  · rintro (hi | ⟨i, h1, h2, hi⟩)
    · exact ⟨next, Nat.le_refl _, hnext, hi⟩
    · exact ⟨i, by omega, h2, hi⟩

end Scan

/-! ## The steps of marking -/

section Steps

variable {image : ImageView} {roots : RootSet} {h₀ : Heap} {bs₀ : List Block} {c : Collector} {h : Heap}
  {bs : List Block} {gray : List Nat} {left : Nat}

variable (image roots h₀ bs₀ c h bs gray) in
/-- The part of the invariant that all marking steps share: `P` are the references to visit. -/
structure Marks₀ (P : Ref32 → Prop) : Prop where
  state : MarkState h₀ bs₀ c h bs gray
  colours : Tricolour (RootAt image roots) (Edge image h₀.payloadOffset bs₀) (Todo P) (· ∈ gray) (Marked bs)

variable (image roots h₀ bs₀ c h bs gray) in
/-- The collector is visiting roots. -/
structure RootsInv (left : Nat) : Prop where
  phase : c.phase = .roots
  scan : c.scan = none
  marks : Marks₀ image roots h₀ bs₀ c h bs gray (fun ref => .ok (.reference ref) ∈ pending image roots c)
  isRoot : ∀ ref, .ok (.reference ref) ∈ pending image roots c → Root image roots ref
  left : left = (pending image roots c).length

variable (image roots h₀ bs₀ c h bs gray) in
/-- The collector is following references. -/
structure MarkInv (left : Nat) : Prop where
  phase : c.phase = .mark
  scan : ScanOk image h₀.payloadOffset bs₀ c.scan left
  marks : Marks₀ image roots h₀ bs₀ c h bs gray (ScanTodo image h₀.payloadOffset bs₀ c.scan)

/-- One reference was visited, and the blocks that are new in the queue were not marked before; or
nothing was left to visit, the first block left the queue, and its references are left now. -/
inductive Advances (image : ImageView) (po : Nat) (bs₀ bs bs' : List Block) (gray gray' : List Nat)
    (left left' : Nat) : Prop
  | visit : left = left' + 1 → (∀ o, Marked bs o → Marked bs' o) →
      (∀ o ∈ gray', o ∈ gray ∨ ¬ Marked bs o) → Advances image po bs₀ bs bs' gray gray' left left'
  | dequeue (o t n : Nat) (f : Memory) : left = 0 → gray = o :: gray' → LiveAt bs₀ o t n f →
      left' = references image po t f → (∀ o, Marked bs' o ↔ Marked bs o) →
      Advances image po bs₀ bs bs' gray gray' left left'

/-- The block that a value names is live. -/
def NamesLive (bs₀ : List Block) (value : RuntimeValue) : Prop :=
  ∀ ref, value = .reference ref → ref.domain = .managed → ∃ o t n f, ref.bits = o + 8 ∧ LiveAt bs₀ o t n f

/-- **One visit.**  Enqueuing a value removes its reference from what is to be visited. -/
theorem Marks₀.visit {P P' : Ref32 → Prop} {value : RuntimeValue} (hm : Marks₀ image roots h₀ bs₀ c h bs gray P)
    (hlive : NamesLive bs₀ value) (hP : ∀ r, P r ↔ value = .reference r ∨ P' r) :
    ∃ head tail h' bs' gray',
      c.enqueueValue h value = .ok ({ c with grayHead := head, grayTail := tail }, h') ∧
      Marks₀ image roots h₀ bs₀ { c with grayHead := head, grayTail := tail } h' bs' gray' P' ∧
      (∀ o, Marked bs o → Marked bs' o) ∧ ∀ o ∈ gray', o ∈ gray ∨ ¬ Marked bs o := by
  obtain ⟨hs, htri⟩ := hm
  -- a value that names no block changes nothing
  have hskip (hnone : ∀ ref, value = .reference ref → ref.domain ≠ .managed) :
      Marks₀ image roots h₀ bs₀ c h bs gray P' := by
    refine ⟨hs, htri.congr (todo_skip fun r hd => ?_) (fun _ => Iff.rfl) (fun _ => Iff.rfl)⟩
    rw [hP r]
    exact ⟨fun hr => hr.resolve_left fun hv => hnone r hv hd, .inr⟩
  cases value with
  | reference ref =>
    by_cases hd : ref.domain = .managed
    · obtain ⟨o, t, n, f, hbits, hl⟩ := hlive ref rfl hd
      obtain ⟨b, m, hb, hk, -, -⟩ := liveAt_now hs.recolour hl
      obtain ⟨h', bs', gray', head, tail, e, marks, hq, hm, hg⟩ :=
        enqueueGray_spec hs.rep hs.queue hb hk hbits
      have hP' : ∀ r, P r ↔ r = ref ∨ P' r := fun r => by
        rw [hP r, RuntimeValue.reference.injEq, eq_comm]
      refine ⟨head, tail, h', bs', gray', ?_, ⟨⟨hs.kept.trans marks.kept, marks.rep,
        marks.recolour _ hs.recolour, hq⟩, htri.visit (todo_visit ⟨hd, hbits⟩ hP') hm hg⟩,
        fun o' ho' => (hm o').mpr (.inr ho'), fun o' ho' => ((hg o').mp ho').imp_right ?_⟩
      · simp only [enqueueValue, e, ok_bind, pure_eq_ok]
      · rintro ⟨rfl, hnew⟩
        exact hnew
    · have hq : h.enqueueGray ref c.grayHead c.grayTail = .ok (h, c.grayHead, c.grayTail) := by
        simp only [enqueueGray, hd, ne_eq, not_false_eq_true, if_true, pure_eq_ok]
      refine ⟨c.grayHead, c.grayTail, h, bs, gray, ?_, hskip fun r hr => ?_, fun _ => id, fun _ => .inl⟩
      · simp only [enqueueValue, hq, ok_bind, pure_eq_ok]
      · cases hr
        exact hd
  | _ => exact ⟨c.grayHead, c.grayTail, h, bs, gray, rfl, hskip (fun r hr => nomatch hr), fun _ => id, fun _ => .inl⟩

/-- **One step over the roots.**  It fails only at a root that cannot be read. -/
theorem rootStep_spec (hclosed : Closed image roots h₀.payloadOffset bs₀)
    (hi : RootsInv image roots h₀ bs₀ c h bs gray left) :
    (∃ fault, .error fault ∈ pending image roots c ∧ c.rootStep h image roots = .error fault) ∨
    (∃ c' h' bs' gray' left', c.rootStep h image roots = .ok (c', h') ∧
      RootsInv image roots h₀ bs₀ c' h' bs' gray' left' ∧ left = left' + 1 ∧
      (∀ o, Marked bs o → Marked bs' o) ∧ (∀ o ∈ gray', o ∈ gray ∨ ¬ Marked bs o) ∧
      ∀ read ∈ pending image roots c', read ∈ pending image roots c) ∨
    ∃ c', c.rootStep h image roots = .ok (c', h) ∧ MarkInv image roots h₀ bs₀ c' h bs gray 0 := by
  have hpop := nextRoot_spec image roots c
  unfold rootStep
  cases hpending : pending image roots c with
  | nil =>
    rw [hpending] at hpop
    obtain ⟨c', e, hcur, -⟩ := hpop
    obtain ⟨-, hscan, hhead, htail⟩ := hcur.same
    rw [e]
    refine .inr (.inr ⟨_, rfl, rfl, ?_, hi.marks.state.congr hhead htail, ?_⟩)
    · show ScanOk image _ bs₀ c'.scan 0
      rw [hscan, hi.scan]
      rfl
    · refine hi.marks.colours.congr (todo_skip fun r _ => ?_) (fun _ => Iff.rfl) (fun _ => Iff.rfl)
      show .ok (.reference r) ∈ pending image roots c ↔ ScanTodo image _ bs₀ c'.scan r
      rw [hpending, hscan, hi.scan]
      simp [ScanTodo]
  | cons read =>
    rw [hpending] at hpop
    cases read with
    | error fault =>
      refine .inl ⟨fault, by simp, ?_⟩
      have e : c.nextRoot image roots = .error fault := hpop
      rw [e]
      rfl
    | ok value =>
      obtain ⟨c', e, hcur, hrest⟩ := hpop
      obtain ⟨hphase, hscan, hhead, htail⟩ := hcur.same
      rw [e]
      have hlive : NamesLive bs₀ value := by
        rintro ref rfl hd
        exact hclosed.roots ref (hi.isRoot ref (by rw [hpending]; simp)) hd
      have hP : ∀ r, .ok (.reference r) ∈ pending image roots c ↔
          value = .reference r ∨ .ok (.reference r) ∈ pending image roots c' := by
        intro r
        rw [hpending, hrest, mem_cons, Except.ok.injEq, eq_comm]
      have hleft : left = (pending image roots c').length + 1 := by
        rw [hi.left, hpending, hrest]
        rfl
      have hmarks := Marks₀.mk (hi.marks.state.congr hhead htail) hi.marks.colours
      obtain ⟨head, _, h', bs', gray', e', hm', hmono, hnew⟩ := hmarks.visit hlive hP
      refine .inr (.inl ⟨_, h', bs', gray', _, e', ⟨?_, ?_, hm', ?_, rfl⟩, hleft, hmono, hnew, ?_⟩)
      · exact hphase.trans hi.phase
      · exact hscan.trans hi.scan
      · exact fun ref hr => hi.isRoot ref ((hP ref).mpr (.inr hr))
      · intro read hread
        have hread' : read ∈ pending image roots c' := hread
        rw [hrest] at hread'
        exact mem_cons_of_mem _ hread'

variable (image roots h₀ bs₀ bs gray left) in
/-- The outcome of a marking step: it fails because a layout does not fit, or it keeps the invariant
and advances. -/
def MarkOutcome (r : Except VmFault (Collector × Heap)) : Prop :=
  (¬ Typed image h₀.payloadOffset bs₀ ∧ ∃ fault, r = .error fault) ∨
    ∃ c' h' bs' gray' left', r = .ok (c', h') ∧
      MarkInv image roots h₀ bs₀ c' h' bs' gray' left' ∧
      Advances image h₀.payloadOffset bs₀ bs bs' gray gray' left left'

variable {r : Ref32} {f : Memory}

/-- Follow the reference at `offset` of the live block behind `r`, then move the cursor. -/
theorem follow_spec {o t n offset : Nat} {scan : Option Scan} {left' : Nat}
    (hclosed : Closed image roots h₀.payloadOffset bs₀)
    (hi : MarkInv image roots h₀ bs₀ c h bs gray left) (hbits : r.bits = o + 8) (hl : LiveAt bs₀ o t n f)
    (hholds : ∀ ref, refAt f (h₀.payloadOffset + offset) = some ref → Holds image h₀.payloadOffset t f ref)
    (hP : ∀ ref, ScanTodo image h₀.payloadOffset bs₀ c.scan ref ↔
      RuntimeValue.ofReference (refAt f (h₀.payloadOffset + offset)) = .reference ref ∨
      ScanTodo image h₀.payloadOffset bs₀ scan ref)
    (hscan : ScanOk image h₀.payloadOffset bs₀ scan left') (hleft : left = left' + 1)
    (htyped : Typed image h₀.payloadOffset bs₀ → offset + 4 ≤ n - h₀.payloadOffset) :
    MarkOutcome image roots h₀ bs₀ bs gray left (do
      let value ← loadValue h r offset .ref
      let (c, h) ← c.enqueueValue h value
      return ({ c with scan := scan }, h)) := by
  obtain ⟨b, m, hb, hk, rfl, rfl⟩ := liveAt_now hi.marks.state.recolour hl
  have hload := loadValue_ref hi.marks.state.rep hb hk hbits offset
  rw [hi.marks.state.payloadOffset] at hload
  by_cases hin : offset + 4 ≤ b.size - h₀.payloadOffset
  · rw [hload.1 hin]
    have hlive : NamesLive bs₀ (RuntimeValue.ofReference (refAt b.bytes (h₀.payloadOffset + offset))) :=
      fun ref hr hd => hclosed.stored _ _ _ _ ref hl (hholds ref (ofReference_eq.mp hr)) hd
    obtain ⟨head, tail, h', bs', gray', e, hm', hmono, hnew⟩ := hi.marks.visit hlive hP
    refine .inr ⟨{ c with grayHead := head, grayTail := tail, scan := scan }, h', bs', gray', left',
      ?_, ⟨hi.phase, hscan, ⟨hm'.state.congr rfl rfl, hm'.colours⟩⟩, .visit hleft hmono hnew⟩
    simp only [ok_bind, e, pure_eq_ok]
  · refine .inl ⟨fun ht => hin (htyped ht), ?_⟩
    cases hv : loadValue h r offset .ref with
    | ok v => exact absurd (hload.2 v hv) hin
    | error fault => exact ⟨fault, rfl⟩

theorem managedType_now {o t n : Nat} (hs : MarkState h₀ bs₀ c h bs gray)
    (hclean : ∀ a ∈ bs₀, Clean a.kind) (hbits : r.bits = o + 8) (hl : LiveAt bs₀ o t n f) : h.managedType r = .ok t := by
  obtain ⟨b, m, hb, hk, -, -⟩ := liveAt_now hs.recolour hl
  obtain ⟨elive, -, -⟩ := liveBlock_of_mem hs.rep hb hk hbits
  rw [managedType, elive]
  exact hs.rep.readType hb hk (hl.type_lt hclean)

/-- **One step inside an object or an array.** -/
theorem scanStep_spec {scan : Scan} (hr₀ : Rep h₀ bs₀) (hclean : ∀ a ∈ bs₀, Clean a.kind)
    (hclosed : Closed image roots h₀.payloadOffset bs₀)
    (hi : MarkInv image roots h₀ bs₀ c h bs gray left) (hc : c.scan = some scan) :
    MarkOutcome image roots h₀ bs₀ bs gray left (c.scanStep h image scan) := by
  have hok := hi.scan
  rw [hc] at hok
  cases scan with
  | object r next =>
    obtain ⟨o, t, n, f, layout, hbits, hl, hlayout, hlt, hleft⟩ := hok
    have hnext := getElem?_eq_getElem hlt
    have hmem : layout.referenceOffsets[next] ∈ layout.referenceOffsets := getElem_mem hlt
    simp only [scanStep, managedType_now hi.marks.state hclean hbits hl, ok_bind, hlayout, hnext]
    refine follow_spec hclosed hi hbits hl (fun ref href => .field layout _ hlayout hmem href) ?_ ?_
      (show left = layout.referenceOffsets.length - (next + 1) + 1 by omega)
      (fun ht => ht.field _ _ _ _ _ hl hlayout _ hmem)
    · intro ref
      rw [hc]
      exact scanTodo_object_step hr₀ hbits hl hlayout hnext
    · by_cases hmore : next + 1 < layout.referenceOffsets.length
      · rw [if_pos hmore]
        exact ⟨o, t, n, f, layout, hbits, hl, hlayout, hmore, rfl⟩
      · rw [if_neg hmore]
        show layout.referenceOffsets.length - (next + 1) = 0
        omega
  | referenceArray r next length =>
    obtain ⟨o, t, n, f, hbits, hl, hlayout, hlength, hlt, hleft⟩ := hok
    have hn : n < 2 ^ 30 := by
      obtain ⟨v, hv⟩ := hl
      have hle : o + n ≤ h₀.arenaBytes := hr₀.le_arena hv
      have hsmall := hr₀.small
      omega
    have hbound : Typed image h₀.payloadOffset bs₀ → 8 + next * 4 + 4 ≤ n - h₀.payloadOffset := by
      intro ht
      have := ht.element o t n f hl hlayout
      omega
    simp only [scanStep]
    by_cases hover : next * 4 ≥ 2 ^ 32 ∨ 8 + next * 4 ≥ 2 ^ 32
    · rw [if_pos hover]
      refine .inl ⟨fun ht => ?_, _, rfl⟩
      have := hbound ht
      omega
    · rw [if_neg hover]
      refine follow_spec hclosed hi hbits hl (fun ref href => .element next hlayout (hlength ▸ hlt) href) ?_ ?_
        (show left = length - (next + 1) + 1 by omega) hbound
      · intro ref
        rw [hc]
        exact scanTodo_array_step hr₀ hbits hl hlt
      · by_cases hmore : next + 1 < length
        · rw [if_pos hmore]
          exact ⟨o, t, n, f, hbits, hl, hlayout, hlength, hmore, rfl⟩
        · rw [if_neg hmore]
          show length - (next + 1) = 0
          omega

/-- The edges of a live block are the references it holds. -/
theorem edge_iff {o t n y : Nat} (hr₀ : Rep h₀ bs₀) (hl : LiveAt bs₀ o t n f) :
    Edge image h₀.payloadOffset bs₀ o y ↔ Todo (Holds image h₀.payloadOffset t f) y := by
  constructor
  · rintro ⟨t', n', f', ref, hl', hh, hn⟩
    obtain ⟨rfl, rfl, rfl⟩ := liveAt_unique hr₀ hl hl'
    exact ⟨ref, hh, hn⟩
  · rintro ⟨ref, hh, hn⟩
    exact ⟨t, n, f, ref, hl, hh, hn⟩

/-- What is to be scanned of an object are the references it holds. -/
theorem scanOf_spec {o t n : Nat} {layout : RuntimeTypeLayout}
    (hr₀ : Rep h₀ bs₀) (hs : MarkState h₀ bs₀ c h bs gray) (hbits : r.bits = o + 8)
    (hl : LiveAt bs₀ o t n f) (hlayout : layoutOf image t = .ok layout) :
    (¬ Typed image h₀.payloadOffset bs₀ ∧ ∃ fault, scanOf h r layout = .error fault) ∨
    ∃ scan, scanOf h r layout = .ok scan ∧
      ScanOk image h₀.payloadOffset bs₀ scan (references image h₀.payloadOffset t f) ∧
      ∀ ref, ScanTodo image h₀.payloadOffset bs₀ scan ref ↔ Holds image h₀.payloadOffset t f ref := by
  have hother : (∀ l, layout ≠ .object l) → layout ≠ .array .ref →
      ∀ ref, ¬ Holds image h₀.payloadOffset t f ref := by
    rintro hno hna ref (⟨l, offset, hl', -, -⟩ | ⟨i, hl', -, -⟩)
    · exact hno l (Except.ok.inj (hlayout.symm.trans hl'))
    · exact hna (Except.ok.inj (hlayout.symm.trans hl'))
  cases layout with
  | object layout =>
    refine .inr ?_
    have hholds : ∀ ref, Holds image h₀.payloadOffset t f ref ↔
        ∃ offset ∈ layout.referenceOffsets, refAt f (h₀.payloadOffset + offset) = some ref := by
      intro ref
      constructor
      · rintro (⟨l, offset, hl', hmem, href⟩ | ⟨i, hl', -, -⟩)
        · cases hlayout.symm.trans hl'
          exact ⟨offset, hmem, href⟩
        · cases hlayout.symm.trans hl'
      · rintro ⟨offset, hmem, href⟩
        exact .field layout offset hlayout hmem href
    rw [show references image h₀.payloadOffset t f = layout.referenceOffsets.length by
      simp only [references, hlayout]]
    by_cases hnil : layout.referenceOffsets = []
    · refine ⟨none, ?_, congrArg length hnil, fun ref => ?_⟩
      · simp [scanOf, hnil]
      · rw [hholds, hnil]
        simp [ScanTodo]
    · refine ⟨some (.object r 0), ?_, ?_, fun ref => ?_⟩
      · simp [scanOf, hnil]
      · exact ⟨o, t, n, f, layout, hbits, hl, hlayout, length_pos_iff.mpr hnil, rfl⟩
      · rw [scanTodo_object hr₀ hbits hl hlayout, drop_zero, hholds]
  | array element =>
    by_cases helem : element = .ref
    · subst helem
      obtain ⟨b, m, hb, hk, rfl, rfl⟩ := liveAt_now hs.recolour hl
      have hread := readPayload_word hs.rep hb hk hbits 0
      rw [hs.payloadOffset, Nat.add_zero] at hread
      by_cases hin : 0 + 4 ≤ b.size - h₀.payloadOffset
      · obtain ⟨bytes, e, hvalue⟩ := hread.1 hin
        have hlen : ofBytesLE (bytes.take 4) = lengthAt b.bytes h₀.payloadOffset := hvalue
        rw [show references image h₀.payloadOffset t b.bytes = lengthAt b.bytes h₀.payloadOffset by
          simp only [references, hlayout]]
        refine .inr ⟨if lengthAt b.bytes h₀.payloadOffset ≠ 0 then
          some (.referenceArray r 0 (lengthAt b.bytes h₀.payloadOffset)) else none, ?_, ?_, fun ref => ?_⟩
        · simp only [scanOf, e, ok_bind, hlen, pure_eq_ok]
        · by_cases hz : lengthAt b.bytes h₀.payloadOffset = 0
          · rw [if_neg (by simp [hz]), hz]
            rfl
          · rw [if_pos hz]
            exact ⟨o, t, _, _, hbits, hl, hlayout, rfl, by omega, by omega⟩
        · have hholds : Holds image h₀.payloadOffset t b.bytes ref ↔
              ∃ i, i < lengthAt b.bytes h₀.payloadOffset ∧
                refAt b.bytes (h₀.payloadOffset + (8 + i * 4)) = some ref := by
            constructor
            · rintro (⟨l, offset, hl', -, -⟩ | ⟨i, -, hi, href⟩)
              · cases hlayout.symm.trans hl'
              · exact ⟨i, hi, href⟩
            · rintro ⟨i, hi, href⟩
              exact .element i hlayout hi href
          rw [hholds]
          by_cases hz : lengthAt b.bytes h₀.payloadOffset = 0
          · rw [if_neg (by simp [hz]), hz]
            simp [ScanTodo]
          · rw [if_pos hz, scanTodo_array hr₀ hbits hl]
            simp
      · refine .inl ⟨fun ht => hin ?_, ?_⟩
        · have := ht.element _ _ _ _ hl hlayout
          omega
        · cases hv : h.readPayload r 0 4 with
          | ok v => exact absurd (hread.2 v hv) hin
          | error fault => exact ⟨fault, by simp only [scanOf, hv, error_bind]⟩
    · have hnone : scanOf h r (.array element) = .ok none := by
        cases element <;> first | rfl | exact absurd rfl helem
      have hrefs : references image h₀.payloadOffset t f = 0 := by
        simp only [references, hlayout]
        cases element <;> first | rfl | exact absurd rfl helem
      refine .inr ⟨none, hnone, hrefs, fun ref => ?_⟩
      simp only [ScanTodo, false_iff]
      exact hother (fun l hl' => nomatch hl') (fun heq => helem (by cases heq; rfl)) ref
  | nonHeap =>
    refine .inr ⟨none, rfl, by simp only [ScanOk, references, hlayout], fun ref => ?_⟩
    simp only [ScanTodo, false_iff]
    exact hother (fun l hl' => nomatch hl') nofun ref

/-- **One marking step.**  Without a scan and with an empty queue marking is over. -/
theorem markStep_spec (hr₀ : Rep h₀ bs₀) (hclean : ∀ a ∈ bs₀, Clean a.kind)
    (hclosed : Closed image roots h₀.payloadOffset bs₀) (hi : MarkInv image roots h₀ bs₀ c h bs gray left) :
    MarkOutcome image roots h₀ bs₀ bs gray left (c.markStep h image) ∨
    (c.scan = none ∧ gray = [] ∧ ∃ c', c.markStep h image = .ok (c', h) ∧ c'.phase = .sweep ∧
      c'.sweepOffset = 0 ∧ c'.sweepPreviousSize = 0) := by
  unfold markStep
  cases hc : c.scan with
  | some => exact .inl (scanStep_spec hr₀ hclean hclosed hi hc)
  | none =>
    cases gray with
    | nil =>
      rw [dequeueGray_empty hi.marks.state.queue]
      exact .inr ⟨rfl, rfl, _, rfl, rfl, rfl, rfl⟩
    | cons o gray =>
      refine .inl ?_
      obtain ⟨h', bs', head, tail, ref, t, e, marks, hq, hm, hbits, b, hb, hk⟩ :=
        dequeueGray_spec hi.marks.state.rep hi.marks.state.queue fun b t m hb hk =>
          (liveAt_before hi.marks.state.recolour hb hk hclean).type_lt hclean
      have hrec := marks.recolour _ hi.marks.state.recolour
      have hl := liveAt_before hrec hb hk hclean
      have hs' : MarkState h₀ bs₀ { c with grayHead := head, grayTail := tail } h' bs' gray :=
        ⟨hi.marks.state.kept.trans marks.kept, marks.rep, hrec, hq⟩
      rw [e]
      simp only [ok_bind]
      cases hlayout : layoutOf image t with
      | error fault =>
        refine .inl ⟨fun ht => ?_, fault, rfl⟩
        obtain ⟨_, hok⟩ := ht.layout _ _ _ _ hl
        cases hlayout.symm.trans hok
      | ok =>
        rcases scanOf_spec hr₀ hs' hbits hl hlayout with ⟨hnt, fault, ef⟩ | ⟨scan, es, hok, htodo⟩
        · refine .inl ⟨hnt, fault, ?_⟩
          simp only [ok_bind, ef, error_bind]
        · have hleft := hi.scan
          rw [hc] at hleft
          refine .inr ⟨{ c with grayHead := head, grayTail := tail, scan := scan }, h', bs', gray, _,
            ?_, ⟨hi.phase, hok, hs'.congr rfl rfl, ?_⟩, .dequeue o t _ _ hleft rfl hl rfl hm⟩
          · simp only [ok_bind, es, pure_eq_ok]
          · -- the dequeued block is black now: its references are what is to be visited
            have hnone : ∀ y, ¬ Todo (ScanTodo image h₀.payloadOffset bs₀ c.scan) y := by
              rintro y ⟨r, hr, -⟩
              rw [hc] at hr
              exact hr
            have hcol := hi.marks.colours.congr (fun _ => Iff.rfl) (fun _ => Iff.rfl) hm
            refine hcol.expand ((hm o).mpr (hi.marks.state.queue.marked o (by simp))) hnone
              (fun y => ?_) (fun y hy => mem_cons.mp hy)
            rw [edge_iff hr₀ hl]
            exact todo_skip (fun r _ => (htodo r).symm) y

end Steps

end Compukter
