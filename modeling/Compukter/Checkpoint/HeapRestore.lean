/-
What the check of a restored heap guarantees, and what it does not.

The walks give a list of blocks that tiles the arena and free lists that hold exactly the free ones.  Those
are the invariants of the allocator except one: the boundary tags, the size of the predecessor that every
header repeats, are never compared.  A restored heap behaves like any other as long as no release follows a
wrong tag to a header that reads as free; the first block has no predecessor, so its tag may be any number.
A release that does merges its block into the middle of another one.
-/
import Compukter.Checkpoint.HeapCheck

open List hiding beq_eq_decide

namespace Compukter.Heap

open Bytes Bits Bitmap Fallible Tiling Segments Checkpoint Nat

section Walk

variable {h : Heap}

theorem orInvalid_eq_ok {α : Type} {x : Except VmFault α} {a : α} : orInvalid x = .ok a ↔ x = .ok a := by
  unfold orInvalid
  cases x <;> simp [Except.mapError]

/-! ## The walk over the headers -/

variable {o n : Nat}

theorem blockSize_valid (e : h.blockSize o = .ok n) : 16 ≤ n ∧ n % 8 = 0 := by
  obtain ⟨_, _, e⟩ := bind_eq_ok.mp e
  split at e
  · cases e
  · next hsize =>
    cases e
    unfold minimumBlockBytes blockAlignment at hsize
    omega

theorem header_size_of_blockSize (hs : h.Slot o) (e : h.blockSize o = .ok n) : (h.header o).size = n := by
  obtain ⟨_, hstored, e⟩ := bind_eq_ok.mp e
  rw [storedSize_eq hs] at hstored
  split at hstored
  · cases hstored
    split at e
    · cases e
    · cases e
      rfl
  · cases hstored

/-- The blocks of a walk from `o` on: each header says what the walk kept of it, and the next block starts
where it ends. -/
def Walked (h : Heap) : Nat → List WalkedBlock → Prop
  | o, [] => o = h.arenaBytes
  | o, b :: rest => b.offset = o ∧ h.Slot o ∧ (h.header o).size = b.size ∧ 16 ≤ b.size ∧
      o + b.size ≤ h.arenaBytes ∧ (h.header o).flags = b.flags ∧ flagsValid b.flags = true ∧
      Walked h (o + b.size) rest

variable {blocks : List WalkedBlock}

theorem walkBlocks_walked (hs : h.Shaped) {fuel : Nat} (haligned : o % 8 = 0) (hle : o ≤ h.arenaBytes)
    (e : h.walkBlocks fuel o = .ok blocks) : Walked h o blocks := by
  induction fuel generalizing o blocks with
  | zero => cases e
  | succ _ ih =>
    unfold walkBlocks at e
    split at e
    · simp only [bind_eq_ok] at e
      obtain ⟨size, hsize, _, hflags, _, hvalid, _, hend, _, hrest, e⟩ := e
      cases e
      have hsize := orInvalid_eq_ok.mp hsize
      obtain ⟨hlo, h8⟩ := blockSize_valid hsize
      rw [demand_eq_ok, Bool.and_eq_true, decide_eq_true_eq, decide_eq_true_eq] at hend
      have hslot : h.Slot o := ⟨hs, haligned, by omega⟩
      rw [readFlags_ok hslot] at hflags
      cases hflags
      exact ⟨rfl, hslot, header_size_of_blockSize hslot hsize, hlo, hend.2, rfl, demand_eq_ok.mp hvalid,
        ih (show (o + size) % 8 = 0 by omega) hend.2 hrest⟩
    · cases e
      show o = h.arenaBytes
      omega

/-- What a block with these flags is used for. -/
def kindOf (flags type : Nat) : Kind :=
  if flags = 0 then .free
  else if flags &&& LIVE = 0 then .reserved
  else .live type (decide (flags &&& MARKED ≠ 0))

theorem kindOf_flags {flags : Nat} (type : Nat) (hlt : flags < 8) (hvalid : flagsValid flags = true) :
    (kindOf flags type).flags = flags := by
  have hcases : flags = 0 ∨ flags = 1 ∨ flags = 5 ∨ flags = 7 := by
    revert hvalid
    revert hlt
    revert flags
    decide
  rcases hcases with rfl | rfl | rfl | rfl <;> rfl

theorem kindOf_live {flags type t : Nat} {m : Bool} (hk : kindOf flags type = .live t m) :
    flags &&& LIVE ≠ 0 ∧ type = t := by
  unfold kindOf at hk
  split at hk
  · cases hk
  · split at hk
    · cases hk
    · next hlive =>
      cases hk
      exact ⟨hlive, rfl⟩

variable {b : WalkedBlock}

theorem kindOf_of_live {h : Heap} (hlive : b.flags &&& LIVE ≠ 0) :
    ∃ t m, kindOf b.flags (h.header b.offset).type = .live t m := by
  refine ⟨(h.header b.offset).type, decide (b.flags &&& MARKED ≠ 0), ?_⟩
  unfold kindOf
  rw [if_neg (fun hzero => hlive (by rw [hzero]; rfl)), if_neg hlive]

theorem kindOf_settled (flags type : Nat) : kindOf flags type ≠ .hole ∧ kindOf flags type ≠ .detached := by
  unfold kindOf
  split
  · exact ⟨nofun, nofun⟩
  · split <;> exact ⟨nofun, nofun⟩

/-- The block of the abstract heap that a walked block is. -/
def WalkedBlock.toBlock (h : Heap) (b : WalkedBlock) : Block where
  size := b.size
  kind := kindOf b.flags (h.header b.offset).type
  link := (h.header b.offset).link
  bytes := fun i => h.arena (b.offset + i)

theorem place_toBlock (hw : Walked h o blocks) :
    place Block.size o (blocks.map (·.toBlock h)) = blocks.map fun b => (b.offset, b.toBlock h) := by
  induction blocks generalizing o with
  | nil => rfl
  | cons _ _ ih =>
    obtain ⟨rfl, -, -, -, -, -, -, hrest⟩ := hw
    exact congrArg _ (ih hrest)

theorem total_toBlock (hw : Walked h o blocks) : o + total Block.size (blocks.map (·.toBlock h)) = h.arenaBytes := by
  induction blocks generalizing o with
  | nil => exact hw
  | cons _ _ ih =>
    obtain ⟨-, -, -, -, -, -, -, hrest⟩ := hw
    rw [map_cons, total_cons, ← ih hrest]
    exact (add_assoc _ _ _).symm

theorem Walked.mem (hw : Walked h o blocks) (hb : b ∈ blocks) :
    h.Slot b.offset ∧ (h.header b.offset).size = b.size ∧ 16 ≤ b.size ∧ b.offset + b.size ≤ h.arenaBytes ∧
      (h.header b.offset).flags = b.flags ∧ flagsValid b.flags = true := by
  induction blocks generalizing o with
  | nil => cases hb
  | cons _ _ ih =>
    obtain ⟨ho, hslot, hsize, hlo, hend, hflags, hvalid, hrest⟩ := hw
    rcases mem_cons.mp hb with rfl | hb
    · rw [ho]
      exact ⟨hslot, hsize, hlo, hend, hflags, hvalid⟩
    · exact ih hrest hb

theorem header_flags_lt (h : Heap) (o : Nat) : (h.header o).flags < 8 := by
  unfold header
  cases h.headerFormat with
  | legacy => exact mod_lt _ (by decide)
  | compact => exact field_lt _ _ _

theorem Walked.flags_eq (hw : Walked h o blocks) (hb : b ∈ blocks) : (b.toBlock h).kind.flags = b.flags := by
  obtain ⟨-, -, -, -, hflags, hvalid⟩ := hw.mem hb
  exact kindOf_flags _ (hflags ▸ header_flags_lt h b.offset) hvalid

theorem kind_free_iff : (b.toBlock h).kind = .free ↔ b.flags = 0 := by
  show kindOf b.flags _ = .free ↔ _
  unfold kindOf
  split
  · simp_all
  · split <;> simp_all

/-- The blocks that a walk over the whole arena stands for. -/
theorem placed_walked (hw : Walked h 0 blocks) {b : Block} :
    (o, b) ∈ placed (blocks.map (·.toBlock h)) ↔ ∃ w ∈ blocks, w.offset = o ∧ w.toBlock h = b := by
  rw [placed, place_toBlock hw, mem_map]
  simp only [Prod.mk.injEq]

theorem sixteen_le_size (hw : Walked h 0 blocks) {b : Block} (he : (o, b) ∈ placed (blocks.map (·.toBlock h))) :
    16 ≤ b.size := by
  obtain ⟨w, hmem, -, rfl⟩ := (placed_walked hw).mp he
  exact (hw.mem hmem).2.2.1

theorem freeIn_walked (hw : Walked h 0 blocks) {n : Nat} :
    freeIn (blocks.map (·.toBlock h)) o n ↔ ∃ w ∈ blocks, w.offset = o ∧ w.flags = 0 ∧ w.size = n := by
  constructor
  · rintro ⟨b, hb, hk, hn⟩
    obtain ⟨w, hmem, ho, rfl⟩ := (placed_walked hw).mp hb
    exact ⟨w, hmem, ho, kind_free_iff.mp hk, hn⟩
  · rintro ⟨w, hmem, ho, hk, hn⟩
    exact ⟨w.toBlock h, (placed_walked hw).mpr ⟨w, hmem, ho, rfl⟩, kind_free_iff.mpr hk, hn⟩

/-- Blocks of a walk at the same offset are the same. -/
theorem Walked.unique (hw : Walked h 0 blocks) {c : WalkedBlock} (hb : b ∈ blocks) (hc : c ∈ blocks)
    (heq : b.offset = c.offset) : b.size = c.size ∧ b.flags = c.flags := by
  obtain ⟨-, hsize, -, -, hflags, -⟩ := hw.mem hb
  obtain ⟨-, hsize', -, -, hflags', -⟩ := hw.mem hc
  exact ⟨by rw [← hsize, ← hsize', heq], by rw [← hflags, ← hflags', heq]⟩

/-! ## The walks over the classes -/

/-- A free block that belongs to this class. -/
def Listable (blocks : List WalkedBlock) (class_ o : Nat) : Prop :=
  ∃ b ∈ blocks, b.offset = o ∧ b.flags = 0 ∧ (freeSizeClass b.size).map classIndex = some class_

theorem walkClass_spec (hw : Walked h 0 blocks) {class_ fuel cursor previous : Nat} {visited list : List Nat}
    (e : h.walkClass blocks class_ fuel cursor previous visited = .ok list) :
    headOr list nullOffset = cursor ∧ Seg h.nextFree h.previousFree previous list nullOffset ∧
      list.Nodup ∧ (∀ o ∈ list, o ∉ visited) ∧ (∀ o ∈ list, Listable blocks class_ o) ∧ ∀ o ∈ list, o ≠ nullOffset := by
  induction fuel generalizing cursor previous visited list with
  | zero => cases e
  | succ fuel ih =>
    unfold walkClass at e
    split at e
    · next hnull =>
      cases e
      exact ⟨hnull.symm, trivial, nodup_nil, by simp, by simp, by simp⟩
    · next hsome =>
      simp only [bind_eq_ok] at e
      obtain ⟨b, hb, _, hcheck, _, hback, _, hprevious, next, hnext, _, hrest, e⟩ := e
      cases e
      have hfind := demandSome_eq_ok.mp hb
      have hmem := mem_of_find?_eq_some hfind
      have hoffset : b.offset = cursor := by simpa using find?_some hfind
      obtain ⟨hslot, -⟩ := hw.mem hmem
      rw [hoffset] at hslot
      rw [demand_eq_ok, Bool.and_eq_true, Bool.and_eq_true] at hcheck
      obtain ⟨⟨hnew, hfree⟩, hclass⟩ := hcheck
      rw [readWord_ok hslot (by decide) (by decide)] at hback hnext
      obtain ⟨hhead, hseg, hnodup, hfresh, hlistable, hnonnull⟩ := ih hrest
      refine ⟨rfl, ⟨?_, ?_, hseg⟩, ?_, ?_, ?_, ?_⟩
      · rw [← beq_iff_eq.mp (demand_eq_ok.mp hprevious), ← Except.ok.inj hback]
        rfl
      · rw [hhead, ← Except.ok.inj hnext]
        rfl
      · rw [nodup_cons]
        exact ⟨fun hagain => hfresh cursor hagain mem_cons_self, hnodup⟩
      · intro o ho
        rcases mem_cons.mp ho with rfl | ho
        · simpa using hnew
        · exact fun hvisited => hfresh o ho (mem_cons_of_mem _ hvisited)
      · intro o ho
        rcases mem_cons.mp ho with rfl | ho
        · exact ⟨b, hmem, hoffset, by simpa using hfree, by simpa using hclass⟩
        · exact hlistable o ho
      · intro o ho
        rcases mem_cons.mp ho with rfl | ho
        · exact hsome
        · exact hnonnull o ho

/-- What the walk over one class found. -/
structure ClassList (h : Heap) (blocks : List WalkedBlock) (class_ : Nat) (list : List Nat) : Prop where
  head : h.classHeads class_ = headOr list nullOffset
  linked : Seg h.nextFree h.previousFree nullOffset list nullOffset
  nodup : list.Nodup
  listable : ∀ o ∈ list, Listable blocks class_ o
  nonnull : ∀ o ∈ list, o ≠ nullOffset

theorem walkLists_spec (hw : Walked h 0 blocks) {classes visited : List Nat} {lists : List (List Nat)}
    (e : h.walkLists blocks classes visited = .ok lists) : List.Forall₂ (ClassList h blocks) classes lists := by
  induction classes generalizing visited lists with
  | nil =>
    cases e
    exact .nil
  | cons _ _ ih =>
    obtain ⟨_, hlist, e⟩ := bind_eq_ok.mp e
    obtain ⟨_, hlater, e⟩ := bind_eq_ok.mp e
    cases e
    obtain ⟨hhead, hseg, hnodup, -, hlistable, hnonnull⟩ := walkClass_spec hw hlist
    exact .cons ⟨hhead.symm, hseg, hnodup, hlistable, hnonnull⟩ (ih hlater)

/-- A class has a list exactly when it has a head. -/
theorem ClassList.ne_nil_iff {class_ : Nat} {list : List Nat} (hl : ClassList h blocks class_ list) :
    list ≠ [] ↔ h.classHeads class_ ≠ nullOffset := by
  rw [hl.head]
  cases list with
  | nil => simp
  | cons o => simpa using hl.nonnull o mem_cons_self

/-! ## Bitmaps -/

variable {counts : Nat → Bool}

theorem testBit_classBits {bit : Nat → Nat} : (h.classBits bit counts).testBit n = true ↔
      ∃ c, c < classCount ∧ h.classHeads c ≠ nullOffset ∧ counts c = true ∧ bit c = n := by
  unfold classBits
  rw [testBit_foldl_or]
  simp only [zero_testBit, Bool.false_eq_true, false_or, mem_range, and_assoc]

theorem classBits_lt {bit : Nat → Nat} {w : Nat} (hbit : ∀ c, c < classCount → bit c < w) :
    h.classBits bit counts < 2 ^ w := by
  apply lt_pow_two_of_testBit
  intro n hn
  by_contra hset
  rw [Bool.not_eq_false] at hset
  obtain ⟨c, hc, -, -, rfl⟩ := testBit_classBits.mp hset
  have := hbit c hc
  omega

/-! ## The restored heap is sound -/

/-- Every header repeats the size of the block before it, the first one `previous`. -/
def tagsFrom (h : Heap) : Nat → List WalkedBlock → Bool
  | _, [] => true
  | previous, b :: rest => (h.readPreviousOrGray b.offset).toOption == some previous && h.tagsFrom b.size rest

/-- The tags of all blocks but the first one, which no release looks behind. -/
def tagsAgree (h : Heap) : List WalkedBlock → Bool
  | [] => true
  | b :: rest => h.tagsFrom b.size rest

/-- **The part that the check leaves out**: the boundary tags are right. -/
def headersAgree (h : Heap) : Bool :=
  match h.walkBlocks h.blockFuel 0 with
  | .ok blocks => h.tagsAgree blocks
  | .error _ => false

theorem tagged_toBlock {previous : Nat} (hw : Walked h o blocks) (htags : h.tagsFrom previous blocks = true) :
    Tagged Block.size Block.link previous (blocks.map (·.toBlock h)) := by
  induction blocks generalizing o previous with
  | nil => exact trivial
  | cons _ _ ih =>
    obtain ⟨rfl, hslot, -, -, -, -, -, hrest⟩ := hw
    unfold tagsFrom at htags
    rw [Bool.and_eq_true, beq_iff_eq, readPreviousOrGray_ok hslot] at htags
    obtain ⟨htag, hlater⟩ := htags
    exact ⟨Option.some.inj htag, ih hrest hlater⟩

theorem exists_tagged (hw : Walked h o blocks) (htags : h.tagsAgree blocks = true) :
    ∃ first, Tagged Block.size Block.link first (blocks.map (·.toBlock h)) := by
  cases blocks with
  | nil => exact ⟨0, trivial⟩
  | cons =>
    obtain ⟨-, -, -, -, -, -, -, hrest⟩ := hw
    exact ⟨_, rfl, tagged_toBlock hrest htags⟩

theorem freeBytes_toBlock (blocks : List WalkedBlock) : freeBytes (blocks.map (·.toBlock h)) = freeTotal blocks := by
  induction blocks with
  | nil => rfl
  | cons b _ ih =>
    rw [map_cons, freeBytes_cons, ih]
    by_cases hfree : b.flags = 0
    · rw [if_pos (kind_free_iff.mpr hfree)]
      simp [freeTotal, hfree, WalkedBlock.toBlock]
    · rw [if_neg fun hk => hfree (kind_free_iff.mp hk)]
      simp [freeTotal, hfree]

theorem liveCount_toBlock (hw : Walked h o blocks) : liveCount (blocks.map (·.toBlock h)) = liveTotal blocks := by
  have hlive : ∀ b ∈ blocks, isLive (b.toBlock h) = (b.flags &&& LIVE != 0) := by
    intro b hb
    rw [isLive_eq, hw.flags_eq hb]
    exact decide_not.trans (by rw [bne, beq_eq_decide])
  unfold liveCount liveTotal
  rw [countP_map, countP_eq_length_filter]
  exact congrArg length (filter_congr fun b hb => hlive b hb)

/-- What the check established: the blocks and the free lists that its walks found. -/
structure Checked (h : Heap) (blocks : List WalkedBlock) (lists : List (List Nat)) : Prop where
  shaped : h.Shaped
  walked : Walked h 0 blocks
  classes : List.Forall₂ (ClassList h blocks) (List.range classCount) lists
  firstBitmap : h.classBits (· / 8) (fun _ => true) = h.firstBitmap
  secondBitmaps : ∀ f, f < 32 → h.classBits (· % 8) (· / 8 == f) = h.secondBitmaps f
  listed : ∀ b ∈ blocks, b.flags = 0 ↔ b.offset ∈ lists.flatten
  hint : h.largestFreeHint = nullOffset ∨ ∃ b ∈ blocks, b.offset = h.largestFreeHint ∧ b.flags = 0
  totalFree : h.totalFree = freeTotal blocks
  liveObjects : h.liveObjects = liveTotal blocks

theorem validateCheckpoint_checked {plan : StoragePlan} (hsmall : plan.heapArenaBytes ≤ Ref32.maxPayload)
    (hfits : plan.headerFormat.Fits plan.heapArenaBytes) (e : h.validateCheckpoint plan = .ok ()) :
    ∃ blocks lists, h.walkBlocks h.blockFuel 0 = .ok blocks ∧ h.Checked blocks lists := by
  simp only [validateCheckpoint, bind_eq_ok] at e
  obtain ⟨_, hplan, blocks, hblocks, _, htotals, lists, hlists, _, hbitmaps, _, hlisted, e⟩ := e
  simp only [demand_eq_ok, Bool.and_eq_true, Bool.or_eq_true, beq_iff_eq, all_eq_true, any_eq_true,
    mem_range] at hplan htotals hbitmaps hlisted e
  obtain ⟨⟨hformat, hbytes⟩, hunits⟩ := hplan
  have hs : h.Shaped := ⟨by omega, by omega, by rw [hformat, hbytes]; exact hfits⟩
  have hw := walkBlocks_walked hs rfl (zero_le _) hblocks
  refine ⟨blocks, lists, hblocks, hs, hw, walkLists_spec hw hlists, hbitmaps.1, hbitmaps.2, fun b hb => ?_, e,
    htotals.1.symm, htotals.2.symm⟩
  rw [← beq_iff_eq, hlisted b hb, contains_iff_mem]

namespace Checked

variable {blocks : List WalkedBlock} {lists : List (List Nat)}

/-- The list of a class. -/
abbrev listAt (lists : List (List Nat)) (c : Nat) : List Nat := (lists[c]?).getD []

variable (hc : h.Checked blocks lists)
include hc

theorem valid {b : WalkedBlock} (hb : b ∈ blocks) : ValidSize b.size := by
  obtain ⟨-, hsize, hlo, hend, -⟩ := hc.walked.mem hb
  have hsmall := hc.shaped.lt
  exact ⟨hlo, hsize ▸ header_size_aligned h b.offset, by omega⟩

theorem length_eq : lists.length = classCount := by
  rw [← hc.classes.length_eq, length_range]

theorem classList {c : Nat} (hlt : c < classCount) : ClassList h blocks c (listAt lists c) := by
  have hfound := (forall₂_iff_get.mp hc.classes).2 c (by simpa using hlt) (by rw [hc.length_eq]; exact hlt)
  rw [listAt, getElem?_eq_getElem (by rw [hc.length_eq]; exact hlt)]
  simpa using hfound

theorem listAt_of_le {c : Nat} (hle : classCount ≤ c) : listAt lists c = [] := by
  rw [listAt, getElem?_eq_none (by rw [hc.length_eq]; exact hle)]
  rfl

/-- A list holds exactly the free blocks of its class: a free block is in some list, and every list holds
blocks of its own class only. -/
theorem mem_listAt {c o : Nat} :
    o ∈ listAt lists c ↔ ∃ n, freeIn (blocks.map (·.toBlock h)) o n ∧ classIndex (sizeClass n) = c := by
  constructor
  · intro ho
    by_cases hlt : c < classCount
    · obtain ⟨b, hb, hoffset, hfree, hindex⟩ := (hc.classList hlt).listable o ho
      rw [(hc.valid hb).freeSizeClass_eq] at hindex
      exact ⟨b.size, (freeIn_walked hc.walked).mpr ⟨b, hb, hoffset, hfree, rfl⟩, Option.some.inj hindex⟩
    · rw [hc.listAt_of_le (not_lt.mp hlt)] at ho
      cases ho
  · rintro ⟨n, hfree, hindex⟩
    obtain ⟨b, hb, rfl, hflags, rfl⟩ := (freeIn_walked hc.walked).mp hfree
    obtain ⟨list, hlist, hin⟩ := mem_flatten.mp ((hc.listed b hb).mp hflags)
    obtain ⟨c', hc', rfl⟩ := mem_iff_getElem.mp hlist
    have hat : listAt lists c' = lists[c'] := by rw [listAt, getElem?_eq_getElem hc']; rfl
    rw [← hat] at hin
    obtain ⟨b', hb', hoffset, -, hindex'⟩ := (hc.classList (hc.length_eq ▸ hc')).listable b.offset hin
    rw [(hc.walked.unique hb' hb hoffset).1, (hc.valid hb).freeSizeClass_eq] at hindex'
    have hsame : c' = c := (Option.some.inj hindex').symm.trans hindex
    exact hsame ▸ hin

theorem cell {f s : Nat} (hf : f < 32) (hs : s < 8) :
    listAt lists (f * 8 + s) ≠ [] ↔ h.classHeads (f * 8 + s) ≠ nullOffset :=
  (hc.classList (by unfold classCount; omega)).ne_nil_iff

theorem bitmaps : Agrees 32 8 h.firstBitmap h.secondBitmaps (fun f s => listAt lists (f * 8 + s) ≠ []) := by
  refine ⟨fun f s hf hs => ?_, fun f hf => ?_, fun f hf => ?_, ?_⟩
  · rw [← hc.secondBitmaps f hf, testBit_classBits, hc.cell hf hs]
    constructor
    · rintro ⟨c, -, hhead, hrow, rfl⟩
      rw [← beq_iff_eq.mp hrow, div_add_mod']
      exact hhead
    · intro hhead
      exact ⟨f * 8 + s, by unfold classCount; omega, hhead, by rw [beq_iff_eq]; omega, by omega⟩
  · rw [← hc.secondBitmaps f hf]
    exact classBits_lt fun c _ => mod_lt c (by decide)
  · rw [← hc.firstBitmap, testBit_classBits]
    constructor
    · rintro ⟨c, hlt, hhead, -, rfl⟩
      refine ⟨c % 8, mod_lt c (by decide), (hc.cell hf (mod_lt c (by decide))).mpr ?_⟩
      rw [div_add_mod']
      exact hhead
    · rintro ⟨s, hs, hlist⟩
      exact ⟨f * 8 + s, by unfold classCount; omega, (hc.cell hf hs).mp hlist, rfl, by omega⟩
  · rw [← hc.firstBitmap]
    refine classBits_lt fun c hlt => ?_
    unfold classCount at hlt
    omega

/-- The free lists of a checked heap. -/
theorem freeLists : h.Lists (freeIn (blocks.map (·.toBlock h))) (listAt lists) := by
  refine {
    shaped := hc.shaped
    slot := fun hfree => ?_
    size := fun hfree => ?_
    bounds := fun hfree => ?_
    apart := fun hfree hfree' => ?_
    mem := hc.mem_listAt
    nodup := fun c => ?_
    head := fun c hlt => (hc.classList hlt).head
    linked := fun c => ?_
    bitmaps := hc.bitmaps
    hint := ?_ }
  · obtain ⟨b, hb, rfl, -, -⟩ := (freeIn_walked hc.walked).mp hfree
    exact (hc.walked.mem hb).1
  · obtain ⟨b, hb, rfl, -, rfl⟩ := (freeIn_walked hc.walked).mp hfree
    exact (hc.walked.mem hb).2.1
  · obtain ⟨b, hb, rfl, -, rfl⟩ := (freeIn_walked hc.walked).mp hfree
    obtain ⟨-, -, hlo, hend, -⟩ := hc.walked.mem hb
    omega
  · obtain ⟨b, he, -, -⟩ := hfree
    obtain ⟨b', he', -, -⟩ := hfree'
    have hlo := sixteen_le_size hc.walked he
    have hlo' := sixteen_le_size hc.walked he'
    rcases place_apart he he' with heq | hbefore | hafter
    · exact .inl (congrArg Prod.fst heq)
    · exact .inr (.inl (Nat.le_trans (Nat.add_le_add_left hlo _) hbefore))
    · exact .inr (.inr (Nat.le_trans (Nat.add_le_add_left hlo' _) hafter))
  · by_cases hlt : c < classCount
    · exact (hc.classList hlt).nodup
    · rw [hc.listAt_of_le (not_lt.mp hlt)]
      exact nodup_nil
  · by_cases hlt : c < classCount
    · exact (hc.classList hlt).linked
    · rw [hc.listAt_of_le (not_lt.mp hlt)]
      exact trivial
  · rcases hc.hint with hnull | ⟨b, hb, hoffset, hfree⟩
    · exact .inl hnull
    · exact .inr ⟨b.size, (freeIn_walked hc.walked).mpr ⟨b, hb, hoffset, hfree, rfl⟩⟩

/-- **A checked heap is sound.**  Neighbours need not be merged, and marks may be left. -/
theorem sound {g : Grade} (hstrict : ¬ g.strict) (htags : g.tagged → h.tagsAgree blocks = true) :
    Sound g h (blocks.map (·.toBlock h)) := by
  have htiles := total_toBlock hc.walked
  rw [zero_add] at htiles
  refine ⟨⟨hc.shaped, htiles, ?_, ?_, _, hc.freeLists⟩, ⟨?_, fun hg => ?_, (absurd · hstrict)⟩,
    (absurd · hstrict), ?_, ?_⟩
  · intro b hb
    obtain ⟨w, hw, rfl⟩ := mem_map.mp hb
    have hv := hc.valid hw
    exact ⟨hv.lo, hv.aligned⟩
  · rintro ⟨o, b⟩ he
    obtain ⟨w, hw, rfl, rfl⟩ := (placed_walked hc.walked).mp he
    obtain ⟨-, hsize, -, -, hflags, -⟩ := hc.walked.mem hw
    exact ⟨fun _ => hsize, fun _ => hflags.trans (hc.walked.flags_eq hw).symm, fun _ => rfl,
      fun t m hk => (kindOf_live hk).2, fun _ i _ _ => rfl⟩
  · intro b hb
    obtain ⟨w, -, rfl⟩ := mem_map.mp hb
    exact kindOf_settled _ _
  · obtain ⟨first, htagged⟩ := exists_tagged hc.walked (htags hg)
    exact ⟨first, (absurd · hstrict), htagged⟩
  · rw [hc.totalFree, freeBytes_toBlock]
  · rw [hc.liveObjects, liveCount_toBlock hc.walked]

end Checked

/-! ## What a restored machine holds -/

theorem liveReferencesFrom_eq {fuel : Nat} {refs : List Ref32} (hw : Walked h o blocks)
    (e : h.liveReferencesFrom fuel o = .ok refs) :
    refs.map Ref32.bits = (blocks.filter (·.flags &&& LIVE ≠ 0)).map (·.offset + 8) := by
  induction fuel generalizing o blocks refs with
  | zero => cases e
  | succ fuel ih =>
    unfold liveReferencesFrom at e
    cases blocks with
    | nil =>
      rw [if_neg (by rw [show o = h.arenaBytes from hw]; exact lt_irrefl _)] at e
      cases e
      rfl
    | cons =>
      obtain ⟨rfl, hslot, hsize, hlo, hend, hflags, -, hrest⟩ := hw
      rw [if_pos (by omega)] at e
      simp only [bind_eq_ok] at e
      obtain ⟨_, hblock, _, hread, own, hown, _, -, _, hlater, e⟩ := e
      cases e
      have hsize' := header_size_of_blockSize hslot (orInvalid_eq_ok.mp hblock)
      rw [readFlags_ok hslot, hflags] at hread
      cases hread
      rw [hsize] at hsize'
      subst hsize'
      rw [map_append, ih hrest hlater]
      unfold ownReference at hown
      split at hown
      · next hlive =>
        obtain ⟨_, -, hown⟩ := bind_eq_ok.mp hown
        obtain ⟨ref, href, hown⟩ := bind_eq_ok.mp hown
        cases hown
        rw [filter_cons_of_pos (by simpa using hlive), map_cons, map_cons, map_nil,
          (Ref32.managed_eq_some.mp (demandSome_eq_ok.mp href)).2.2]
        rfl
      · next hlive =>
        cases hown
        rw [filter_cons_of_neg (by simpa using hlive)]
        rfl

theorem Walked.le_offset (hw : Walked h o blocks) (hb : b ∈ blocks) : o ≤ b.offset := by
  induction blocks generalizing o with
  | nil => cases hb
  | cons _ _ ih =>
    obtain ⟨hoffset, -, -, -, -, -, -, hrest⟩ := hw
    rcases mem_cons.mp hb with rfl | hb
    · exact hoffset.ge
    · exact Nat.le_trans (le_add_right _ _) (ih hrest hb)

theorem Walked.offsets_nodup (hw : Walked h o blocks) : (blocks.map (·.offset)).Nodup := by
  induction blocks generalizing o with
  | nil => exact nodup_nil
  | cons _ _ ih =>
    obtain ⟨hoffset, -, -, hlo, -, -, -, hrest⟩ := hw
    rw [map_cons, nodup_cons]
    refine ⟨fun hagain => ?_, ih hrest⟩
    obtain ⟨c, hc, heq⟩ := mem_map.mp hagain
    have := hrest.le_offset hc
    omega

variable {r : ReservedAllocation}

theorem reservationCapacityFrom_spec {fuel : Nat} (hw : Walked h o blocks)
    (e : h.reservationCapacityFrom r fuel o = .ok n) :
    ∃ b ∈ blocks, b.offset = r.block ∧ h.validateReservation r = .ok () := by
  induction fuel generalizing o blocks with
  | zero => cases e
  | succ fuel ih =>
    unfold reservationCapacityFrom at e
    cases blocks with
    | nil =>
      rw [if_neg (by rw [show o = h.arenaBytes from hw]; exact lt_irrefl _)] at e
      cases e
    | cons b =>
      obtain ⟨rfl, hslot, hsize, hlo, hend, hflags, -, hrest⟩ := hw
      rw [if_pos (by omega)] at e
      obtain ⟨_, hblock, e⟩ := bind_eq_ok.mp e
      have hsize' := header_size_of_blockSize hslot (orInvalid_eq_ok.mp hblock)
      rw [hsize] at hsize'
      subst hsize'
      split at e
      · next hfound =>
        obtain ⟨_, hvalid, -⟩ := bind_eq_ok.mp e
        exact ⟨b, mem_cons_self, hfound, orInvalid_eq_ok.mp hvalid⟩
      · obtain ⟨_, -, e⟩ := bind_eq_ok.mp e
        obtain ⟨c, hc, hfound⟩ := ih hrest e
        exact ⟨c, mem_cons_of_mem _ hc, hfound⟩

theorem reserved_of_validateReservation (hw : Walked h 0 blocks) (hb : b ∈ blocks)
    (hoffset : b.offset = r.block) (e : h.validateReservation r = .ok ()) : (b.toBlock h).kind = .reserved := by
  obtain ⟨hslot, -, -, -, hflags, -⟩ := hw.mem hb
  rw [hoffset] at hslot hflags
  simp only [validateReservation, blockAllocated, readFlags_ok hslot, hflags, ok_bind, pure_eq_ok] at e
  have hallocated : b.flags &&& ALLOCATED ≠ 0 := by
    intro hzero
    simp [hzero, throw_eq_error] at e
  have hlive : b.flags &&& LIVE = 0 := by
    by_contra hne
    simp [hallocated, hne, throw_eq_error] at e
  show kindOf b.flags _ = _
  unfold kindOf
  rw [if_neg (fun hzero => hallocated (by rw [hzero]; rfl)), if_pos hlive]

end Walk

end Compukter.Heap

namespace Compukter

open Fallible Tiling Heap

/-! ## Runs from a restored heap -/

/-- A heap that the check accepted, with all its live objects and with reservations that were checked. -/
structure HeapRun.Restored (plan : StoragePlan) (typeCount : Nat) (s : HeapRun) : Prop where
  accepted : s.heap.validateCheckpoint plan = .ok ()
  references : s.heap.checkpointLiveReferences = .ok s.references
  distinct : (s.reservations.map ReservedAllocation.block).Nodup
  reserved : ∀ r ∈ s.reservations, (r.typeId < typeCount ∧ r.typeId < 2 ^ 32) ∧
    ∃ n, s.heap.checkpointReservationCapacity r = .ok n

/-- The states that allowed calls with `P` lead to. -/
inductive HeapRun.LeadsTo (typeCount : Nat) (P : HeapRun → HeapOp → Prop) (start : HeapRun) : HeapRun → Prop
  | refl : LeadsTo typeCount P start start
  | step (s s' : HeapRun) (op : HeapOp) : LeadsTo typeCount P start s → op.Allowed typeCount s → P s op →
      op.run s = .ok s' → LeadsTo typeCount P start s'

/-- What is known of a restored heap. -/
def HeapRun.grade (start : HeapRun) : Grade := ⟨start.heap.headersAgree = true, False, False.elim⟩

/-- The tags were right at the start, or a block that the call releases may be released. -/
def HeapRun.Careful (start s : HeapRun) (op : HeapOp) : Prop := start.heap.headersAgree = true ∨ op.Prudent s

/-- The blocks that the client holds. -/
def HeapRun.heldBlocks (s : HeapRun) : List Nat :=
  s.reservations.map ReservedAllocation.block ++ s.references.map fun ref => ref.bits - OBJECT_TYPE_ID

/-- The byte ranges of the two blocks have nothing in common. -/
def Heap.Disjoint (h : Heap) (o o' : Nat) : Prop :=
  ∃ n n', h.blockSize o = .ok n ∧ h.blockSize o' = .ok n' ∧ (o + n ≤ o' ∨ o' + n' ≤ o)

section Restored

variable {g : Grade} {plan : StoragePlan} {typeCount : Nat} {s : HeapRun} {bs : List Block}

section

variable (hs : RunSound g typeCount s bs)
include hs

theorem RunSound.view_of_held {o : Nat} (ho : o ∈ s.heldBlocks) :
    ∃ k n f, k ≠ .hole ∧ View bs o k n f := by
  rcases mem_append.mp ho with ho | ho
  · obtain ⟨r, hr, rfl⟩ := mem_map.mp ho
    obtain ⟨-, n, f, hv⟩ := hs.reserved r hr
    exact ⟨.reserved, n, f, nofun, hv⟩
  · obtain ⟨ref, hr, rfl⟩ := mem_map.mp ho
    obtain ⟨o, t, m, n, f, hbits, hv⟩ := hs.live ref hr
    refine ⟨.live t m, n, f, nofun, ?_⟩
    rw [hbits]
    exact hv

/-- Different blocks of a sound heap do not overlap. -/
theorem RunSound.disjoint {o o' : Nat} (ho : o ∈ s.heldBlocks)
    (ho' : o' ∈ s.heldBlocks) (hne : o ≠ o') : s.heap.Disjoint o o' := by
  obtain ⟨k, n, f, hk, v, hv⟩ := hs.view_of_held ho
  obtain ⟨k', n', f', hk', v', hv'⟩ := hs.view_of_held ho'
  refine ⟨n, n', hs.heap.rep.blockSize hv hk, hs.heap.rep.blockSize hv' hk', ?_⟩
  exact (place_apart hv hv').resolve_left fun heq => hne (congrArg Prod.fst heq)

theorem RunSound.held_nodup (hrefs : s.references.Nodup) :
    s.heldBlocks.Nodup := by
  refine nodup_append.mpr ⟨hs.distinct, ?_, ?_⟩
  · refine (nodup_map_iff_inj_on hrefs).mpr fun ref hr ref' hr' heq => Ref32.ext ?_
    obtain ⟨o, -, -, -, -, hbits, -⟩ := hs.live ref hr
    obtain ⟨o', -, -, -, -, hbits', -⟩ := hs.live ref' hr'
    unfold OBJECT_TYPE_ID blockHeaderBytes at heq
    omega
  · intro o ho o' ho' heq
    obtain ⟨r, hr, rfl⟩ := mem_map.mp ho
    obtain ⟨ref, href, rfl⟩ := mem_map.mp ho'
    obtain ⟨-, n, f, hv⟩ := hs.reserved r hr
    refine hs.reference_ne hv href ?_
    obtain ⟨o, -, -, -, -, hbits, -⟩ := hs.live ref href
    unfold OBJECT_TYPE_ID blockHeaderBytes at heq
    omega

end

/-- No call hands out a reference twice. -/
theorem HeapOp.run_references_nodup {op : HeapOp} {s' : HeapRun} (hs : RunSound g typeCount s bs)
    (ha : op.Allowed typeCount s) (e : op.run s = .ok s') (hrefs : s.references.Nodup) : s'.references.Nodup := by
  cases op with
  | reserve =>
    obtain ⟨⟨heap, r⟩, -, e⟩ := bind_eq_ok.mp e
    cases r <;> cases e <;> exact hrefs
  | commit r =>
    obtain ⟨⟨htc, ht32⟩, n, f, hv⟩ := hs.reserved r ha
    have hfresh := fun ref (hr : ref ∈ s.references) => hs.reference_ne hv hr
    obtain ⟨pre, v, _, rfl, ho⟩ := view_split hv
    obtain ⟨h', ref, e', hbits, -, -⟩ := commit_spec (t := r.typeId) hs.heap rfl (hs.types _ htc ht32) ht32
    rw [← ho] at e' hbits
    simp only [HeapOp.run, e', ok_bind, pure_eq_ok] at e
    cases e
    exact nodup_cons.mpr ⟨fun hmem => hfresh ref hmem hbits, hrefs⟩
  | abort =>
    obtain ⟨heap, -, e⟩ := bind_eq_ok.mp e
    cases e
    exact hrefs
  | free =>
    obtain ⟨⟨heap, _⟩, -, e⟩ := bind_eq_ok.mp e
    cases e
    exact hrefs.filter _
  | zeroReserved | writeReservedU32 | writeReserved
  | readPayload | writePayload
  | copyPayload =>
    obtain ⟨heap, -, e⟩ := bind_eq_ok.mp e
    cases e
    exact hrefs

/-- The state after a restore is sound. -/
theorem HeapRun.Restored.runSound (hsmall : plan.heapArenaBytes ≤ Ref32.maxPayload)
    (hsel : plan.Selected typeCount) (hr : s.Restored plan typeCount) :
    ∃ bs, RunSound s.grade typeCount s bs ∧ s.references.Nodup := by
  obtain ⟨_, _, hblocks, hc⟩ := validateCheckpoint_checked hsmall hsel.fits hr.accepted
  have hw := hc.walked
  have hformat : s.heap.headerFormat = plan.headerFormat := by
    obtain ⟨_, hplan, -⟩ := bind_eq_ok.mp hr.accepted
    simp only [demand_eq_ok, Bool.and_eq_true, beq_iff_eq] at hplan
    exact hplan.1.1
  have hbits := liveReferencesFrom_eq hw hr.references
  have hnodup : (s.references.map Ref32.bits).Nodup := by
    have hoffsets := hw.offsets_nodup.sublist ((filter_sublist (p := (·.flags &&& LIVE ≠ 0))).map _)
    have hshifted := hoffsets.map (f := (· + 8)) fun a b => add_right_cancel
    rw [hbits]
    rwa [map_map] at hshifted
  refine ⟨_, ⟨hc.sound id (fun hagree : headersAgree _ = true => by rwa [headersAgree, hblocks] at hagree),
    fun t ht h32 => hformat ▸ hsel.typeLimit ht h32,
    hr.distinct, fun r hmem => ?_, False.elim, fun ref href => ?_⟩, hnodup.of_map⟩
  · obtain ⟨htype, n, hcapacity⟩ := hr.reserved r hmem
    obtain ⟨b, hb, hoffset, hvalid⟩ := reservationCapacityFrom_spec hw hcapacity
    refine ⟨htype, b.size, (b.toBlock s.heap).bytes, ?_⟩
    rw [← reserved_of_validateReservation hw hb hoffset hvalid]
    exact view_of_mem ((placed_walked hw).mpr ⟨b, hb, hoffset, rfl⟩)
  · have hin : ref.bits ∈ s.references.map Ref32.bits := mem_map_of_mem href
    rw [hbits] at hin
    obtain ⟨b, hb, heq⟩ := mem_map.mp hin
    rw [mem_filter, decide_eq_true_eq] at hb
    obtain ⟨t, m, hk⟩ := kindOf_of_live (h := s.heap) hb.2
    refine ⟨b.offset, t, m, b.size, (b.toBlock s.heap).bytes, heq.symm, ?_⟩
    rw [← hk]
    exact view_of_mem ((placed_walked hw).mpr ⟨b, hb.1, rfl, rfl⟩)

theorem HeapRun.LeadsTo.runSound {start : HeapRun} (hstart : RunSound start.grade typeCount start bs)
    (hrefs : start.references.Nodup) (hrun : HeapRun.LeadsTo typeCount start.Careful start s) :
    ∃ bs, RunSound start.grade typeCount s bs ∧ s.references.Nodup := by
  induction hrun with
  | refl => exact ⟨bs, hstart, hrefs⟩
  | step _ _ op _ ha hp e ih =>
    obtain ⟨bs, hs, hrefs⟩ := ih
    rcases op.run_keeps hs ha hp with ⟨t, bs', e', hs'⟩ | ⟨-, e'⟩
    · cases e.symm.trans e'
      exact ⟨bs', hs', op.run_references_nodup hs ha e hrefs⟩
    · cases e.symm.trans e'

/-- **Runs from a restored heap.**  When the tags that the check skips are right, or at least no release is
misled by one, the blocks that the client holds never overlap, and no call reports a corrupt heap. -/
theorem restored_heap_behaves {start : HeapRun} (hsmall : plan.heapArenaBytes ≤ Ref32.maxPayload)
    (hsel : plan.Selected typeCount) (hr : start.Restored plan typeCount)
    (hrun : HeapRun.LeadsTo typeCount start.Careful start s) :
    s.heldBlocks.Pairwise s.heap.Disjoint ∧
      ∀ op : HeapOp, op.Allowed typeCount s → start.Careful s op → op.run s ≠ .error .corruptHeap := by
  obtain ⟨bs, hs, hrefs⟩ := hr.runSound hsmall hsel
  obtain ⟨bs', hs', hrefs'⟩ := hrun.runSound hs hrefs
  refine ⟨?_, fun op ha hp e => ?_⟩
  · exact (hs'.held_nodup hrefs').pairwise_of_forall_ne fun o ho o' ho' hne => hs'.disjoint ho ho' hne
  · rcases op.run_keeps hs' ha hp with ⟨t, _, e', -⟩ | ⟨-, e'⟩ <;> cases e.symm.trans e'

end Restored

/-- A checkpoint of two live objects of 32 bytes each; the payload of the first looks like a free block, and
the boundary tags are `first` and `tag`. -/
def savedPair (first tag : Nat) : HeapRun where
  heap := {
    headerFormat := .legacy
    arena := fun i =>
      UInt8.ofNat ([37, first, 0, 0, 16, 0, nullOffset, 0, 37, tag, 0, 0, 0, 0, 0, 0].getD (i / 4) 0 >>> (8 * (i % 4)))
    arenaLen := 4
    arenaBytes := 64
    classHeads := fun _ => nullOffset
    firstBitmap := 0
    secondBitmaps := fun _ => 0
    largestFreeHint := nullOffset
    totalFree := 0
    liveObjects := 2 }
  reservations := []
  references := [⟨8, by decide, by decide⟩, ⟨40, by decide, by decide⟩]

/-- A tag of zero leads the second object to itself: its block is released and handed out again. -/
theorem restored_pair_behaves :
    (savedPair 7 0).Restored ⟨.legacy, 64⟩ 1 ∧ (savedPair 7 0).heap.headersAgree = false ∧
      ∃ s, HeapRun.LeadsTo 1 (savedPair 7 0).Careful (savedPair 7 0) s ∧ s.heldBlocks = [32, 0] ∧
        s.heldBlocks.Pairwise s.heap.Disjoint ∧
        ∀ op : HeapOp, op.Allowed 1 s → (savedPair 7 0).Careful s op → op.run s ≠ .error .corruptHeap := by
  have hr : (savedPair 7 0).Restored ⟨.legacy, 64⟩ 1 :=
    ⟨by decide +kernel, by decide +kernel, nodup_nil, fun r hr => absurd hr not_mem_nil⟩
  have h0 : HeapRun.LeadsTo 1 (savedPair 7 0).Careful (savedPair 7 0) (savedPair 7 0) := .refl
  have h1 := h0.step _ _ (.free ⟨40, by decide, by decide⟩) (.tail _ (.head _))
    (.inr (.inr ⟨0, rfl, Nat.zero_le _, .inl rfl⟩)) rfl
  have h2 := h1.step _ _ (.reserve ⟨32, 0⟩) ⟨by decide, by decide, by decide⟩ (.inr trivial) rfl
  exact ⟨hr, by decide +kernel, _, h2, rfl, restored_heap_behaves (by decide) (.inl rfl) hr h2⟩

/-- **A tag that points into the first object.**  The check accepts it.  The release of the second object
merges its block with bytes of the first one, the next reservation overlaps the first object, which is
still live, and the one after that finds the heap corrupt. -/
theorem restored_pair_overlaps :
    (savedPair 0 16).Restored ⟨.legacy, 64⟩ 1 ∧ ∃ s, HeapRun.LeadsTo 1 (fun _ _ => True) (savedPair 0 16) s ∧
      s.heldBlocks = [16, 0] ∧ ¬ s.heap.Disjoint 16 0 ∧
      (HeapOp.reserve ⟨16, 0⟩).Allowed 1 s ∧ (HeapOp.reserve ⟨16, 0⟩).run s = .error .corruptHeap := by
  have hr : (savedPair 0 16).Restored ⟨.legacy, 64⟩ 1 :=
    ⟨by decide +kernel, by decide +kernel, nodup_nil, fun r hr => absurd hr not_mem_nil⟩
  have h0 : HeapRun.LeadsTo 1 (fun _ _ => True) (savedPair 0 16) (savedPair 0 16) := .refl
  have h1 := h0.step _ _ (.free ⟨40, by decide, by decide⟩) (.tail _ (.head _)) trivial rfl
  have h2 := h1.step _ _ (.reserve ⟨32, 0⟩) ⟨by decide, by decide, by decide⟩ trivial rfl
  refine ⟨hr, _, h2, rfl, ?_, ⟨by decide, by decide, by decide⟩, rfl⟩
  rintro ⟨n, n', hn, hn', hapart⟩
  have hn' : n' = 32 := (Except.ok.inj hn').symm
  omega

end Compukter
