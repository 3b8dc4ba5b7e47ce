/-
Allocated blocks by their place.

A resumable operation holds references to blocks over many steps.  What it needs of a block is its place,
its kind and its size, not the bytes or the blocks around it: `Held` says that and no more, and a write into
the payload of any block keeps it.
-/
import Compukter.Heap.Payload

namespace Compukter.Heap

open Bytes Fallible Tiling Block

variable {g : Grade} {h h' : Heap} {bs : List Block} {o n offset length : Nat} {k : Kind} {ref : Ref32}

variable {f : Nat → UInt8}

/-- The list around the block that a view sees. -/
theorem view_split {o : Nat} {k : Kind} {n : Nat} (hv : View bs o k n f) :
    ∃ pre v post, bs = pre ++ ⟨n, k, v, f⟩ :: post ∧ o = total size pre := by
  obtain ⟨v, hv⟩ := hv
  obtain ⟨pre, post, hbs, ho⟩ := placed_split hv
  exact ⟨pre, v, post, hbs, ho⟩

theorem view_unique {h : Heap} (hr : Rep h bs) {o : Nat} {k k' : Kind} {n n' : Nat} {f' : Nat → UInt8}
    (hv : View bs o k n f) (hv' : View bs o k' n' f') : k = k' ∧ n = n' ∧ f = f' := by
  obtain ⟨v, hv⟩ := hv
  obtain ⟨v', hv'⟩ := hv'
  have := hr.unique hv hv'
  simp only [Block.mk.injEq] at this
  exact ⟨this.2.1, this.1, this.2.2.2⟩

/-- An allocated block of `n` bytes at `o`, whatever its bytes are. -/
def Held (bs : List Block) (o : Nat) (k : Kind) (n : Nat) : Prop := k.allocated = true ∧ ∃ f, View bs o k n f

/-- Two blocks at different places have no byte in common. -/
theorem Held.apart {o' n' : Nat} {k' : Kind} (hv : Held bs o k n) (hv' : Held bs o' k' n') (hne : o ≠ o') :
    o + n ≤ o' ∨ o' + n' ≤ o := by
  obtain ⟨-, f, v, hplace⟩ := hv
  obtain ⟨-, f', v', hplace'⟩ := hv'
  rcases place_apart hplace hplace' with heq | happart
  · exact absurd (congrArg Prod.fst heq) hne
  · exact happart

theorem Held.span (hv : Held bs o k n) (hr : Rep h bs) (offset length : Nat)
    (hle : offset + length ≤ n - h.payloadOffset) : h.payloadSpan o offset length = .ok (o + h.payloadOffset + offset) ∧
      o + h.payloadOffset + offset + length ≤ o + n ∧ o + n ≤ h.arenaBytes := by
  obtain ⟨ha, f, hview⟩ := hv
  obtain ⟨pre, v, _, rfl, rfl⟩ := view_split hview
  have hhole := Kind.ne_hole ha
  obtain ⟨hspan, hend⟩ := payloadSpan_ok hr hhole hle
  have htotal := hr.total_mid
  dsimp only at htotal
  exact ⟨hspan, hend, by omega⟩

section

variable {t : Nat} {m : Bool} (hv : Held bs o (.live t m) n) (hr : Rep h bs) (href : ref.bits = o + 8)
include hv hr href

theorem Held.liveBlock : h.liveBlock ref = .ok o := by
  obtain ⟨-, f, hview⟩ := hv
  obtain ⟨pre, v, _, rfl, rfl⟩ := view_split hview
  exact (liveBlock_ok hr rfl href).1

theorem Held.copySpan (hle : offset + length ≤ n - h.payloadOffset) :
    h.copySpan ref offset length = .ok (o + h.payloadOffset + offset) := by
  obtain ⟨hspan, hend, htotal⟩ := hv.span hr _ _ hle
  have hsmall := hr.small
  simp only [Heap.copySpan, hv.liveBlock hr href, hspan, ok_bind]
  rw [checkedAdd_ok (by omega)]
  simp only [ok_bind, pure_eq_ok]
  rw [if_neg (by omega)]

theorem Held.readPayload (offset length : Nat) (hle : offset + length ≤ n - h.payloadOffset) (h8 : length ≤ 8) :
    h.readPayload ref offset length = .ok ((List.range length).map (fun i => h.arena (o + h.payloadOffset + offset + i)) ++
      List.replicate (8 - length) 0) := by
  obtain ⟨hspan, hend, htotal⟩ := hv.span hr _ _ hle
  have hload := loadBytes_ok (o + h.payloadOffset + offset) length hr.shaped (by omega)
  simp only [Heap.readPayload, hv.liveBlock hr href, hspan, ok_bind, if_neg (show ¬ length > 8 by omega), hload,
    pure_eq_ok]

end

theorem Held.length_lt (hv : Held bs o k n) (hr : Rep h bs) (hle : offset + length ≤ n - h.payloadOffset) :
    ¬ length ≥ 2 ^ 32 := by
  obtain ⟨-, hend, htotal⟩ := hv.span hr _ _ hle
  have hsmall := hr.small
  omega

/-- **A write into the payload of a block keeps every block in its place.** -/
theorem Sound.write {lo count : Nat} (hw : Sound g h bs) (hv : Held bs o k n) (frame : Frame h h' lo count)
    (hlo : o + h.payloadOffset ≤ lo) (hhi : lo + count ≤ o + n) :
    ∃ bs', Sound g h' bs' ∧ ∀ o' k' n', Held bs o' k' n' ↔ Held bs' o' k' n' := by
  obtain ⟨ha, f, hview⟩ := id hv
  obtain ⟨pre, v, post, rfl, rfl⟩ := view_split hview
  refine ⟨_, hw.setBytes ha frame hlo hhi, fun o' k' n' => and_congr_right fun _ => ?_⟩
  have hreplace : ∀ g, View (pre ++ ⟨n, k, v, fun i => h'.arena (total size pre + i)⟩ :: post) o' k' n' g ↔ _ :=
    fun g => view_replace (d := ⟨n, k, v, fun i => h'.arena (total size pre + i)⟩) hw.rep.size_pos rfl
  constructor
  · rintro ⟨f', hview'⟩
    by_cases hsame : o' = total size pre
    · obtain ⟨rfl, rfl, -⟩ := view_unique hw.rep (hsame ▸ hview') hview
      exact ⟨_, (hreplace _).mpr (.inr ⟨hsame, rfl, rfl, rfl⟩)⟩
    · exact ⟨f', (hreplace f').mpr (.inl ⟨hview', hsame⟩)⟩
  · rintro ⟨f', hview'⟩
    rcases (hreplace f').mp hview' with ⟨hold, -⟩ | ⟨rfl, rfl, rfl, -⟩
    · exact ⟨f', hold⟩
    · exact ⟨f, hview⟩

/-! ## Reserved blocks -/

variable {t : Nat}

/-- The checks in front of a write into a reserved block. -/
theorem Held.validate (hv : Held bs o .reserved n) (hw : Sound g h bs) :
    h.validateReservation ⟨o, t⟩ = .ok () := by
  obtain ⟨-, f, hview⟩ := hv
  obtain ⟨pre, v, _, rfl, rfl⟩ := view_split hview
  exact validateReservation_ok hw rfl

/-- **Bytes written into the payload of a block.** -/
theorem Held.store (hv : Held bs o k n) (hw : Sound g h bs) (offset : Nat) (bytes : List UInt8)
    (hle : offset + bytes.length ≤ n - h.payloadOffset) : h.storeBytes (o + h.payloadOffset + offset) bytes =
        .ok (h.setArena (writeBytes h.arena (o + h.payloadOffset + offset) bytes)) ∧
      ∃ bs', Sound g (h.setArena (writeBytes h.arena (o + h.payloadOffset + offset) bytes)) bs' ∧
        ∀ o' k' n', Held bs o' k' n' ↔ Held bs' o' k' n' := by
  obtain ⟨-, hend, htotal⟩ := hv.span hw.rep _ _ hle
  exact ⟨storeBytes_ok hw.rep.shaped (by omega), hw.write hv (frame_writeBytes h _ bytes) (by omega) hend⟩

theorem Held.zeroReserved (hv : Held bs o .reserved n) (hw : Sound g h bs)
    (hle : offset + length ≤ n - h.payloadOffset) : h.zeroReservedPayload ⟨o, t⟩ offset length =
      .ok (h.setArena (writeBytes h.arena (o + h.payloadOffset + offset) (List.replicate length 0))) := by
  obtain ⟨hspan, -⟩ := hv.span hw.rep _ _ hle
  simp only [zeroReservedPayload, hv.validate hw, hspan, ok_bind]
  exact (hv.store hw _ _ (by rw [List.length_replicate]; exact hle)).1

theorem Held.writeReservedU32 {t value : Nat} (hv : Held bs o .reserved n) (hw : Sound g h bs)
    (hle : offset + 4 ≤ n - h.payloadOffset) : h.writeReservedU32 ⟨o, t⟩ offset value =
      .ok (h.setArena (writeBytes h.arena (o + h.payloadOffset + offset) (leBytes value))) := by
  obtain ⟨hspan, -⟩ := hv.span hw.rep _ _ hle
  simp only [Heap.writeReservedU32, hv.validate hw, hspan, ok_bind]
  exact (hv.store hw _ _ hle).1

/-- **A committed block keeps its payload.** -/
theorem Held.commit (hv : Held bs o .reserved n) (hw : Sound g h bs)
    (ht : t < h.headerFormat.typeLimit) (ht32 : t < 2 ^ 32) :
    ∃ h' ref bs', h.commit ⟨o, t⟩ = .ok (h', ref) ∧ ref.bits = o + 8 ∧ h'.payloadOffset = h.payloadOffset ∧
      Sound g h' bs' ∧ Held bs' o (.live t false) n ∧
      ∀ i, h.payloadOffset ≤ i → i < n → h'.arena (o + i) = h.arena (o + i) := by
  obtain ⟨-, f, hview⟩ := hv
  obtain ⟨pre, v, post, rfl, rfl⟩ := view_split hview
  obtain ⟨h', ref, hcommit, hbits, hformat, hw'⟩ := commit_spec hw rfl ht ht32
  have hoffset : h'.payloadOffset = h.payloadOffset := congrArg HeaderFormat.bytes hformat
  have hplace := placed_mid pre post ⟨n, .live t false, v, f⟩
  refine ⟨h', ref, _, hcommit, hbits, hoffset, hw', ⟨rfl, f, v, hplace⟩, fun i hlow hhigh => ?_⟩
  rw [(hw'.rep.stored _ hplace).bytes rfl i (hoffset ▸ hlow) hhigh,
    (hw.rep.stored _ (placed_mid pre post ⟨n, .reserved, v, f⟩)).bytes rfl i hlow hhigh]

/-- **An aborted reservation gives its bytes back.** -/
theorem Held.abort (hv : Held bs o .reserved n) (hw : WellFormed h bs) :
    ∃ h', h.abort ⟨o, t⟩ = .ok h' ∧ h'.totalFree = h.totalFree + n ∧ h'.liveObjects = h.liveObjects := by
  obtain ⟨-, f, hview⟩ := hv
  obtain ⟨pre, v, _, rfl, rfl⟩ := view_split hview
  obtain ⟨h', -, habort, -, -, -, hfree, hlive⟩ := abort_spec hw rfl (.inl trivial)
  exact ⟨h', habort, hfree, hlive⟩

/-- **A reservation takes its bytes from the free ones.** -/
theorem Sound.reserve {r t : Nat} (hw : Sound g h bs) (hv : ValidSize r) : h.reserve ⟨r, t⟩ = .ok (h, none) ∨
      ∃ h' bs' o n, h.reserve ⟨r, t⟩ = .ok (h', some ⟨o, t⟩) ∧ Sound g h' bs' ∧
        h'.payloadOffset = h.payloadOffset ∧ h'.headerFormat = h.headerFormat ∧ r ≤ n ∧ Held bs' o .reserved n ∧
        (∀ o' k' n', Held bs o' k' n' → Held bs' o' k' n') ∧
        h'.totalFree + n = h.totalFree ∧ h'.liveObjects = h.liveObjects := by
  rcases reserve_spec (t := t) hw hv with e | ⟨h', bs', o, n, f, e, hw', hf, hle, -, hview, hfree, hlive⟩
  · exact .inl e
  · refine .inr ⟨h', bs', o, n, e, hw', congrArg HeaderFormat.bytes hf, hf, hle, ⟨rfl, f, ?_⟩,
      fun o' k' n' ⟨ha, g, hg⟩ => ⟨ha, g, (hview _ _ _ _ ha).mpr (.inl hg)⟩, hfree, hlive⟩
    exact (hview _ _ _ _ rfl).mpr (.inr ⟨rfl, rfl, rfl, rfl⟩)

end Compukter.Heap
