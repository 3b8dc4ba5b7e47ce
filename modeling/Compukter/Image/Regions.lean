/-
The unused regions of an arena.

Frames of several tasks come and go in any order, so the bytes that no frame holds are a list of regions.
The list is kept in the regions themselves, and `Chain` says which regions the headers give.  `Free` is what
the arena keeps about that list: the regions are aligned, lie inside the arena, are in address order and no
two of them touch.

A push takes the front of the first region that is long enough; a pop joins the frame with the regions on
both sides.  Each is one edit of the list, and the bytes of the other frames stay as they are.
-/
import Compukter.Image.Packed

open List Nat

namespace Compukter.FrameReservation

/-- The bytes of a reservation. -/
def Holds (r : FrameReservation) (i : Nat) : Prop := r.base ≤ i ∧ i < r.base + r.byteLen

instance (r : FrameReservation) (i : Nat) : Decidable (r.Holds i) := inferInstanceAs (Decidable (_ ∧ _))

/-- A reservation that is not empty, in an arena of `length` bytes. -/
structure Placed (length : Nat) (r : FrameReservation) : Prop where
  aligned : r.base % 8 = 0
  units : r.byteLen % 8 = 0
  room : 8 ≤ r.byteLen
  bound : r.base + r.byteLen ≤ length

end Compukter.FrameReservation

namespace Compukter.Image

open Bytes Fallible

/-! ## Lists of regions -/

/-- Some reservation of the list holds the byte. -/
def Covered (l : List FrameReservation) (i : Nat) : Prop := ∃ r ∈ l, r.Holds i

instance (l : List FrameReservation) (i : Nat) : Decidable (Covered l i) :=
  inferInstanceAs (Decidable (∃ r ∈ l, _))

@[simp] theorem not_covered_nil (i : Nat) : ¬ Covered [] i := fun ⟨_, hr, _⟩ => nomatch hr

@[simp] theorem covered_cons {r : FrameReservation} {l : List FrameReservation} {i : Nat} :
    Covered (r :: l) i ↔ r.Holds i ∨ Covered l i := by
  simp only [Covered, mem_cons, or_and_right, exists_or, exists_eq_left]

@[simp] theorem covered_append {l l' : List FrameReservation} {i : Nat} :
    Covered (l ++ l') i ↔ Covered l i ∨ Covered l' i := by
  simp only [Covered, mem_append, or_and_right, exists_or]

/-- The first region ends before the second one starts; they do not touch. -/
def Before (r s : FrameReservation) : Prop := r.base + r.byteLen < s.base

instance (r s : FrameReservation) : Decidable (Before r s) := inferInstanceAs (Decidable (_ < _))

variable {r s t : FrameReservation}

/-- What ends no later is before the same regions. -/
theorem Before.of_end_le (h : Before r s) (hle : t.base + t.byteLen ≤ r.base + r.byteLen) :
    Before t s := lt_of_le_of_lt hle h

theorem Before.trans (h : Before r s) (h' : Before s t) : Before r t :=
  Nat.lt_trans (Nat.lt_of_lt_of_le h (Nat.le_add_right ..)) h'

theorem lt_of_covered {l : List FrameReservation} (h : (r :: l).Pairwise Before) {i : Nat} (hi : Covered l i) :
    r.base + r.byteLen < i := by
  obtain ⟨t, ht, hlow, -⟩ := hi
  exact lt_of_lt_of_le ((pairwise_cons.mp h).1 t ht) hlow

/-- Regions of which no two touch are determined by their bytes. -/
theorem eq_of_covered_iff {l l' : List FrameReservation} (h : l.Pairwise Before) (h' : l'.Pairwise Before)
    (hroom : ∀ r ∈ l, 0 < r.byteLen) (hroom' : ∀ r ∈ l', 0 < r.byteLen)
    (hcover : ∀ i, Covered l i ↔ Covered l' i) : l = l' := by
  induction l generalizing l' with
  | nil =>
    refine (eq_nil_iff_forall_not_mem.mpr fun r hr => ?_).symm
    exact not_covered_nil _ ((hcover r.base).mpr ⟨r, hr, le_refl _, Nat.lt_add_of_pos_right (hroom' r hr)⟩)
  | cons r l ih =>
    obtain ⟨hr, hroom⟩ := forall_mem_cons.mp hroom
    cases l' with
    | nil => exact absurd ((hcover r.base).mp ⟨r, mem_cons_self, le_refl _, by omega⟩) (not_covered_nil _)
    | cons r' l' =>
      obtain ⟨hr', hrest⟩ := forall_mem_cons.mp hroom'
      have hiff (i : Nat) := covered_cons.symm.trans ((hcover i).trans covered_cons)
      have hl (i : Nat) := @lt_of_covered r l h i
      have hl' (i : Nat) := @lt_of_covered r' l' h' i
      unfold FrameReservation.Holds at hiff
      -- both begin at the first byte that is covered and end at the first one after it that is not
      have hbase : r.base = r'.base := by
        grind only [hiff r.base, hiff r'.base, hl r'.base, hl' r.base]
      have hend : r.byteLen = r'.byteLen := by
        grind only [hiff (r.base + r.byteLen), hiff (r'.base + r'.byteLen), hl (r.base + r.byteLen),
          hl' (r'.base + r'.byteLen)]
      obtain rfl : r = r' := by
        cases r
        cases r'
        simp_all
      rw [ih h.of_cons h'.of_cons hroom hrest fun i => ?_]
      grind only [hiff i, hl i, hl' i]

/-- Regions of eight bytes or more that start behind `low` and end before `high`. -/
theorem length_le_of_ordered {low high : Nat} {l : List FrameReservation} (hordered : l.Pairwise Before)
    (hplaced : ∀ r ∈ l, r.Placed high) (hlow : ∀ r ∈ l, low ≤ r.base) : l ≠ [] → low + 8 * l.length ≤ high := by
  induction l generalizing low with
  | nil => exact fun hne => absurd rfl hne
  | cons r l ih =>
    intro _
    obtain ⟨hbefore, hordered⟩ := pairwise_cons.mp hordered
    have hr := hplaced r mem_cons_self
    have hbase := hlow r mem_cons_self
    have hroom := hr.room
    have hbound := hr.bound
    rw [length_cons]
    by_cases hlast : l = []
    · rw [hlast, length_nil]
      omega
    · have hrest := ih hordered (fun s hs => hplaced s (mem_cons_of_mem _ hs))
        (fun s hs => le_of_lt (hbefore s hs)) hlast
      omega

namespace FrameStack

variable {a a' : FrameStack} {head tail next : Option Nat} {pre post l : List FrameReservation}
  {r frame : FrameReservation} {n base : Nat}

/-- The regions from `head` to `tail`, as their headers give them. -/
def Chain (a : FrameStack) : Option Nat → List FrameReservation → Option Nat → Prop
  | head, [], tail => head = tail
  | head, r :: l, tail =>
    head = some r.base ∧ ∃ next, a.readFree r.base = .ok (next, r.byteLen) ∧ Chain a next l tail

theorem chain_append : Chain a head (pre ++ post) tail ↔ ∃ mid, Chain a head pre mid ∧ Chain a mid post tail := by
  induction pre generalizing head with
  | nil => exact ⟨fun h => ⟨head, rfl, h⟩, fun ⟨mid, hmid, h⟩ => hmid ▸ h⟩
  | cons r pre ih =>
    constructor
    · rintro ⟨hhead, next, hread, h⟩
      obtain ⟨mid, hpre, hpost⟩ := ih.mp h
      exact ⟨mid, ⟨hhead, next, hread, hpre⟩, hpost⟩
    · rintro ⟨mid, ⟨hhead, next, hread, hpre⟩, hpost⟩
      exact ⟨hhead, next, hread, ih.mpr ⟨mid, hpre, hpost⟩⟩

/-- A chain is a matter of the headers of its regions. -/
theorem Chain.of_bytes (h : Chain a head l tail) (hlength : a'.length = a.length)
    (hbytes : ∀ r ∈ l, ∀ i, r.base ≤ i → i < r.base + 8 → a'.bytes i = a.bytes i) : Chain a' head l tail := by
  induction l generalizing head with
  | nil => exact h
  | cons r l ih =>
    obtain ⟨hhead, next, hread, h⟩ := h
    refine ⟨hhead, next, ?_, ih h fun s hs => hbytes s (mem_cons_of_mem _ hs)⟩
    rw [readFree_congr hlength (hbytes r mem_cons_self)]
    exact hread

/-- Where a chain of placed regions starts. -/
theorem Chain.head_lt (h : Chain a head l none) (hsmall : a.length < 2 ^ 32) (hplaced : ∀ r ∈ l, r.Placed a.length) :
    ∀ b ∈ head, b < absentRegion := by
  intro b hb
  cases l with
  | nil =>
    rw [show head = none from h] at hb
    cases hb
  | cons r =>
    rw [h.1] at hb
    cases hb
    have hr := hplaced r mem_cons_self
    have hroom := hr.room
    have hbound := hr.bound
    show r.base < 2 ^ 32 - 1
    omega

/-- **The unused regions of an arena.** -/
structure Free (a : FrameStack) (regions : List FrameReservation) : Prop where
  small : a.length < 2 ^ 32
  chain : Chain a a.freeHead regions none
  placed : ∀ r ∈ regions, r.Placed a.length
  ordered : regions.Pairwise Before

theorem Free.room (h : Free a l) : ∀ r ∈ l, 0 < r.byteLen := fun r hr => zero_lt_of_lt (h.placed r hr).room

theorem Free.length_lt (h : Free a l) : l.length < a.regionFuel := by
  unfold regionFuel
  by_cases hnil : l = []
  · rw [hnil, length_nil]
    omega
  · have hle := length_le_of_ordered h.ordered h.placed (fun r _ => zero_le r.base) hnil
    omega

/-! ## Headers -/

/-- The header of a region has been written, and nothing else. -/
structure Wrote (a a' : FrameStack) (r : FrameReservation) (next : Option Nat) : Prop where
  length : a'.length = a.length
  freeHead : a'.freeHead = a.freeHead
  header : a'.readFree r.base = .ok (next, r.byteLen)
  bytes : ∀ i, i < r.base ∨ r.base + 8 ≤ i → a'.bytes i = a.bytes i

theorem writeFree_spec (hr : r.Placed a.length) (hsmall : a.length < 2 ^ 32) (hnext : ∀ b ∈ next, b < absentRegion) :
    ∃ a', a.writeFree r.base next r.byteLen = .ok a' ∧ Wrote a a' r next := by
  have hroom := hr.room
  have hbound := hr.bound
  have hunits := hr.units
  have hbase : r.base + 8 ≤ a.length := by omega
  refine ⟨_, writeFree_ok hbase, rfl, rfl, ?_, fun i hi => ?_⟩
  · have hvalue : next.getD absentRegion < 256 ^ 4 := by
      cases next with
      | none => exact (by decide : absentRegion < 256 ^ 4)
      | some b =>
        have hb := hnext b rfl
        exact Nat.lt_trans hb (by decide)
    have hsecond : readLE (writeLE (writeLE a.bytes r.base 4 (next.getD absentRegion)) (r.base + 4) 4 r.byteLen)
        (r.base + 4) 4 = r.byteLen := readLE_writeLE_same (by omega)
    have hfirst : readLE (writeLE (writeLE a.bytes r.base 4 (next.getD absentRegion)) (r.base + 4) 4 r.byteLen)
        r.base 4 = next.getD absentRegion := by
      rw [readLE_writeLE_other (by omega)]
      exact readLE_writeLE_same hvalue
    unfold readFree
    rw [if_pos hbase, hfirst, hsecond]
    rw [if_neg (by omega)]
    cases next with
    | none => rfl
    | some b =>
      have hb : b ≠ absentRegion := Nat.ne_of_lt (hnext b rfl)
      rw [Option.getD_some, if_pos hb]
  · show writeLE (writeLE a.bytes r.base 4 _) (r.base + 4) 4 _ i = a.bytes i
    rw [writeLE_outside (by omega), writeLE_outside (by omega)]

/-- Regions apart from the one whose header is written. -/
theorem Chain.of_wrote (h : Chain a head l tail) (hwrote : Wrote a a' r next) (hroom : 8 ≤ r.byteLen)
    (hplaced : ∀ s ∈ l, s.Placed a.length) (happart : ∀ s ∈ l, Before s r ∨ Before r s) : Chain a' head l tail := by
  refine h.of_bytes hwrote.length fun s hs i hlow hhigh => hwrote.bytes i ?_
  have hs' := (hplaced s hs).room
  rcases happart s hs with hbefore | hbefore
  · have : s.base + s.byteLen < r.base := hbefore
    omega
  · have : r.base + r.byteLen < s.base := hbefore
    omega

/-- The last region of a chain is given another successor. -/
theorem Chain.relink {p : FrameReservation} (h : Chain a head (pre ++ [p]) tail) (next : Option Nat)
    (hsmall : a.length < 2 ^ 32)
    (hplaced : ∀ s ∈ pre ++ [p], s.Placed a.length) (hordered : (pre ++ [p]).Pairwise Before)
    (hnext : ∀ b ∈ next, b < absentRegion) : a.readFree p.base = .ok (tail, p.byteLen) ∧
      ∃ a', a.writeFree p.base next p.byteLen = .ok a' ∧ Wrote a a' p next ∧ Chain a' head (pre ++ [p]) next := by
  have hp := hplaced p (mem_append_right _ mem_cons_self)
  obtain ⟨mid, hpre, rfl, last, hread, hlast⟩ := chain_append.mp h
  obtain rfl : last = tail := hlast
  obtain ⟨a', hwrite, hwrote⟩ := writeFree_spec hp hsmall hnext
  refine ⟨hread, a', hwrite, hwrote, chain_append.mpr ⟨some p.base, ?_, rfl, next, hwrote.header, rfl⟩⟩
  refine hpre.of_wrote hwrote hp.room (fun s hs => hplaced s (mem_append_left _ hs)) fun s hs => .inl ?_
  exact (pairwise_append.mp hordered).2.2 s hs p mem_cons_self

/-- The region in front of what a walk has reached. -/
def lastBase (previous : Option Nat) (pre : List FrameReservation) : Option Nat :=
  pre.foldl (fun _ r => some r.base) previous

theorem lastBase_concat (previous : Option Nat) (p : FrameReservation) :
    lastBase previous (pre ++ [p]) = some p.base := by
  rw [lastBase, foldl_append]
  rfl

/-! ## Taking a frame -/

/-- The walk passes the regions that are too short. -/
theorem takeRegion_skip (h : Chain a head pre tail) (hshort : ∀ r ∈ pre, r.byteLen < n) (fuel : Nat)
    (previous : Option Nat) :
    a.takeRegion n (fuel + pre.length) previous head = a.takeRegion n fuel (lastBase previous pre) tail := by
  induction pre generalizing head previous with
  | nil =>
    obtain rfl : head = tail := h
    rfl
  | cons r pre ih =>
    obtain ⟨rfl, _, hread, h⟩ := h
    have hr := hshort r mem_cons_self
    rw [length_cons, ← add_assoc, takeRegion, hread, ok_bind]
    dsimp only
    rw [if_neg (by omega), ih h fun s hs => hshort s (mem_cons_of_mem _ hs)]
    rfl

/-- What is left of a region. -/
def remainder (r : FrameReservation) (n : Nat) : List FrameReservation :=
  if r.byteLen - n = 0 then [] else [⟨r.base + n, r.byteLen - n⟩]

theorem covered_remainder (hfit : n ≤ r.byteLen) (i : Nat) :
    r.Holds i ↔ Covered (remainder r n) i ∨ FrameReservation.Holds ⟨r.base, n⟩ i := by
  unfold remainder
  split <;> simp only [covered_cons, not_covered_nil, FrameReservation.Holds, or_false, false_or] <;> omega

theorem remainder_placed {length : Nat} (hr : r.Placed length) (hn : n % 8 = 0) (hfit : n ≤ r.byteLen) :
    ∀ s ∈ remainder r n, s.Placed length ∧ r.base + n = s.base ∧ s.base + s.byteLen = r.base + r.byteLen := by
  have haligned := hr.aligned
  have hunits := hr.units
  have hbound := hr.bound
  intro s hs
  unfold remainder at hs
  split at hs
  · cases hs
  · obtain rfl := mem_singleton.mp hs
    exact ⟨⟨by dsimp only; omega, by dsimp only; omega, by dsimp only; omega, by dsimp only; omega⟩, rfl,
      by dsimp only; omega⟩

/-- The rest of a region takes its place in front of the regions behind it. -/
theorem splitRegion_spec (hsmall : a.length < 2 ^ 32) (hr : r.Placed a.length) (hn : n % 8 = 0)
    (hfit : n ≤ r.byteLen) (hpost : Chain a next post none) (hplaced : ∀ s ∈ post, s.Placed a.length)
    (hbefore : ∀ s ∈ post, Before r s) :
    ∃ a' replacement, a.splitRegion r.base n next (r.byteLen - n) = .ok (a', replacement) ∧
      a'.length = a.length ∧ a'.freeHead = a.freeHead ∧ Chain a' replacement (remainder r n ++ post) none ∧
      ∀ i, ¬ r.Holds i → a'.bytes i = a.bytes i := by
  have hbound := hr.bound
  have hrest := remainder_placed hr hn hfit
  unfold splitRegion
  unfold remainder at hrest ⊢
  by_cases hzero : r.byteLen - n = 0
  · rw [if_pos hzero, if_pos hzero]
    exact ⟨a, next, rfl, rfl, rfl, hpost, fun _ _ => rfl⟩
  · rw [if_neg hzero] at hrest
    rw [if_neg hzero, if_neg hzero, if_pos (show r.base + n < 2 ^ 32 by omega)]
    obtain ⟨hs, -, -⟩ := hrest _ mem_cons_self
    obtain ⟨a', hwrite, hwrote⟩ := writeFree_spec hs hsmall (hpost.head_lt hsmall hplaced)
    rw [show a.writeFree (r.base + n) next (r.byteLen - n) = .ok a' from hwrite, ok_bind]
    refine ⟨a', some (r.base + n), rfl, hwrote.length, hwrote.freeHead, ⟨rfl, next, hwrote.header, ?_⟩,
      fun i hi => hwrote.bytes i ?_⟩
    · refine hpost.of_wrote hwrote hs.room hplaced fun s hs => .inr ((hbefore s hs).of_end_le ?_)
      show r.base + n + (r.byteLen - n) ≤ r.base + r.byteLen
      omega
    · have hroom : 8 ≤ r.byteLen - n := hs.room
      unfold FrameReservation.Holds at hi
      show i < r.base + n ∨ r.base + n + 8 ≤ i
      omega

/-- **The first region that is long enough gives its front.** -/
theorem takeRegion_spec (h : Free a (pre ++ r :: post)) (hn : n % 8 = 0) (hshort : ∀ p ∈ pre, p.byteLen < n)
    (hfit : n ≤ r.byteLen) :
    ∃ a', a.takeRegion n a.regionFuel none a.freeHead = .ok (a', r.base) ∧ a'.length = a.length ∧
      Chain a' a'.freeHead (pre ++ (remainder r n ++ post)) none ∧
      ∀ i, ¬ Covered (pre ++ r :: post) i → a'.bytes i = a.bytes i := by
  obtain ⟨hpreOrdered, hrestOrdered, hacross⟩ := pairwise_append.mp h.ordered
  obtain ⟨hbefore, -⟩ := pairwise_cons.mp hrestOrdered
  obtain ⟨mid, hpre, rfl, _, hread, hpost⟩ := chain_append.mp h.chain
  have hpreBefore : ∀ p ∈ pre, Before p r := fun p hp => hacross p hp r mem_cons_self
  have hprePlaced : ∀ p ∈ pre, p.Placed a.length := fun p hp => h.placed p (mem_append_left _ hp)
  have hr : r.Placed a.length := h.placed r (mem_append_right _ mem_cons_self)
  have hpostPlaced : ∀ s ∈ post, s.Placed a.length :=
    fun s hs => h.placed s (mem_append_right _ (mem_cons_of_mem _ hs))
  obtain ⟨split, replacement, hsplit, hlength, hhead, hrest, hbytes⟩ :=
    splitRegion_spec h.small hr hn hfit hpost hpostPlaced hbefore
  have hnew : ∀ b ∈ replacement, b < absentRegion := by
    refine hrest.head_lt (hlength ▸ h.small) fun s hs => ?_
    rw [hlength]
    rcases mem_append.mp hs with hs | hs
    · exact (remainder_placed hr hn hfit s hs).1
    · exact hpostPlaced s hs
  have hfuel := h.length_lt
  rw [length_append, length_cons] at hfuel
  obtain ⟨fuel, hfuel⟩ : ∃ fuel, a.regionFuel = fuel + 1 + pre.length :=
    ⟨a.regionFuel - pre.length - 1, by omega⟩
  rw [hfuel, takeRegion_skip hpre hshort, takeRegion, hread, ok_bind]
  dsimp only
  rw [if_pos hfit, hsplit, ok_bind]
  -- the regions in front of the one that is taken have not been written
  have hpre' : Chain split a.freeHead pre (some r.base) := by
    refine hpre.of_bytes hlength fun p hp i _ hi => hbytes i fun hheld => ?_
    have hlow := hheld.1
    have hroom := (hprePlaced p hp).room
    have : p.base + p.byteLen < r.base := hpreBefore p hp
    omega
  rcases eq_nil_or_concat' pre with rfl | ⟨init, p, rfl⟩
  · refine ⟨{ split with freeHead := replacement }, rfl, hlength, ?_, fun i hi => hbytes i fun hr => hi ?_⟩
    · exact hrest.of_bytes rfl fun _ _ _ _ _ => rfl
    · exact covered_cons.mpr (.inl hr)
  · have hp := hprePlaced p (mem_append_right _ mem_cons_self)
    obtain ⟨hlast, a', hwrite, hwrote, hchain⟩ := hpre'.relink replacement (hlength ▸ h.small)
      (fun s hs => hlength ▸ hprePlaced s hs) hpreOrdered hnew
    rw [lastBase_concat]
    dsimp only
    rw [hlast, ok_bind]
    rw [hwrite, ok_bind]
    refine ⟨a', rfl, hwrote.length.trans hlength, chain_append.mpr ⟨replacement, ?_, ?_⟩, fun i hi => ?_⟩
    · rw [hwrote.freeHead, hhead]
      exact hchain
    · refine hrest.of_wrote hwrote hp.room (fun s hs => ?_) fun s hs => .inr ?_
      · rw [hlength]
        rcases mem_append.mp hs with hs | hs
        · exact (remainder_placed hr hn hfit s hs).1
        · exact hpostPlaced s hs
      · have hpr : Before p r := hpreBefore p (mem_append_right _ mem_cons_self)
        rcases mem_append.mp hs with hs | hs
        · exact Nat.lt_of_lt_of_le hpr ((remainder_placed hr hn hfit s hs).2.1 ▸ Nat.le_add_right ..)
        · exact hpr.trans (hbefore s hs)
    · simp only [covered_append, covered_cons, not_covered_nil, or_false, not_or] at hi
      rw [hwrote.bytes i ?_, hbytes i hi.2.1]
      have hroom := hp.room
      have := hi.1.2
      unfold FrameReservation.Holds at this
      omega

variable {layout : FrameShape}

/-- **A push takes a frame from the first region that is long enough**, and clears it. -/
theorem push_spec (h : Free a (pre ++ r :: post)) (hn : align layout.byteLen 8 = some n)
    (hpos : n ≠ 0) (hshort : ∀ p ∈ pre, p.byteLen < n) (hfit : n ≤ r.byteLen) :
    ∃ a', a.push layout = .ok (a', ⟨r.base, n⟩) ∧ a'.length = a.length ∧ Free a' (pre ++ (remainder r n ++ post)) ∧
      (∀ i, FrameReservation.Holds ⟨r.base, n⟩ i → a'.bytes i = 0) ∧
      ∀ i, ¬ Covered (pre ++ r :: post) i → a'.bytes i = a.bytes i := by
  have hunits := align_eight_mod hn
  obtain ⟨hpreOrdered, hrestOrdered, hacross⟩ := pairwise_append.mp h.ordered
  obtain ⟨hbefore, hpostOrdered⟩ := pairwise_cons.mp hrestOrdered
  have hr : r.Placed a.length := h.placed r (mem_append_right _ mem_cons_self)
  have hrest := remainder_placed hr hunits hfit
  have hbound := hr.bound
  have hsmall := h.small
  obtain ⟨taken, htake, hlength, hchain, hbytes⟩ := takeRegion_spec h hunits hshort hfit
  have hinside : demand (decide (r.base + n < 2 ^ 32) && decide (r.base + n ≤ taken.length))
      (Refusal.fault .invalidStoragePlan) = .ok () := by
    rw [demand_eq_ok, Bool.and_eq_true, decide_eq_true_eq, decide_eq_true_eq]
    omega
  have hplaced : ∀ s ∈ pre ++ (remainder r n ++ post), s.Placed a.length ∧ (Before s r ∨ r.base + n ≤ s.base) := by
    intro s hs
    rcases mem_append.mp hs with hs | hs
    · exact ⟨h.placed s (mem_append_left _ hs), .inl (hacross s hs r mem_cons_self)⟩
    rcases mem_append.mp hs with hs | hs
    · exact ⟨(hrest s hs).1, .inr (le_of_eq (hrest s hs).2.1)⟩
    · refine ⟨h.placed s (mem_append_right _ (mem_cons_of_mem _ hs)), .inr ?_⟩
      have : r.base + r.byteLen < s.base := hbefore s hs
      omega
  refine ⟨{ taken with bytes := fun i => if r.base ≤ i ∧ i < r.base + n then 0 else taken.bytes i }, ?_, hlength,
    ⟨hlength ▸ hsmall, ?_, fun s hs => ?_, ?_⟩, fun i hi => if_pos hi, fun i hi => ?_⟩
  · unfold push
    rw [hn]
    simp only [demandSome, ok_bind, if_neg hpos, htake, hinside, pure_eq_ok]
  · -- no header of a region lies in the frame
    refine hchain.of_bytes rfl fun s hs i hlow hhigh => if_neg ?_
    obtain ⟨hs, hside⟩ := hplaced s hs
    have hroom := hs.room
    rcases hside with hside | hside
    · have : s.base + s.byteLen < r.base := hside
      omega
    · omega
  · show s.Placed taken.length
    rw [hlength]
    exact (hplaced s hs).1
  · refine pairwise_append.mpr ⟨hpreOrdered, pairwise_append.mpr ⟨?_, hpostOrdered, ?_⟩, ?_⟩
    · unfold remainder
      split
      · exact .nil
      · exact pairwise_singleton _ _
    · exact fun s hs t ht => (hbefore t ht).of_end_le (le_of_eq (hrest s hs).2.2)
    · intro s hs t ht
      have hsr : Before s r := hacross s hs r mem_cons_self
      rcases mem_append.mp ht with ht | ht
      · exact Nat.lt_of_lt_of_le hsr ((hrest t ht).2.1 ▸ Nat.le_add_right ..)
      · exact hsr.trans (hbefore t ht)
  · refine (if_neg fun hframe => hi ?_).trans (hbytes i hi)
    exact covered_append.mpr (.inr (covered_cons.mpr (.inl ⟨hframe.1, by omega⟩)))

/-- The first region that is long enough. -/
theorem exists_fit (l : List FrameReservation) (n : Nat) :
    (∀ p ∈ l, p.byteLen < n) ∨ ∃ pre r post, l = pre ++ r :: post ∧ (∀ p ∈ pre, p.byteLen < n) ∧ n ≤ r.byteLen := by
  induction l with
  | nil => exact .inl (forall_mem_nil _)
  | cons r l ih =>
    by_cases hfit : n ≤ r.byteLen
    · exact .inr ⟨[], r, l, rfl, forall_mem_nil _, hfit⟩
    · rcases ih with hshort | ⟨pre, s, post, rfl, hshort, hs⟩
      · exact .inl (forall_mem_cons.mpr ⟨Nat.lt_of_not_le hfit, hshort⟩)
      · exact .inr ⟨r :: pre, s, post, rfl, forall_mem_cons.mpr ⟨Nat.lt_of_not_le hfit, hshort⟩, hs⟩

/-! ## Releasing a frame -/

/-- One step of the walk along the regions. -/
theorem locate_cons (hread : a.readFree r.base = .ok (next, r.byteLen)) (hr : r.Placed a.length)
    (hsmall : a.length < 2 ^ 32) (fuel : Nat) (previous : Option Nat) :
    a.locate frame (fuel + 1) previous (some r.base) =
      if frame.base + frame.byteLen ≤ r.base then .ok (previous, some r.base)
      else if frame.base < r.base + r.byteLen then .error (.fault .corruptLifecycle)
      else a.locate frame fuel (some r.base) next := by
  have hend : r.base + r.byteLen < 2 ^ 32 := lt_of_le_of_lt hr.bound hsmall
  rw [locate, hread, ok_bind]
  dsimp only
  rw [demand_decide hend, ok_bind]
  rfl

/-- The walk passes the regions in front of the frame. -/
theorem locate_skip (h : Chain a head pre tail) (hsmall : a.length < 2 ^ 32) (hplaced : ∀ r ∈ pre, r.Placed a.length)
    (hend : ∀ r ∈ pre, r.base + r.byteLen ≤ frame.base) (fuel : Nat) (previous : Option Nat) :
    a.locate frame (fuel + pre.length) previous head = a.locate frame fuel (lastBase previous pre) tail := by
  induction pre generalizing head previous with
  | nil =>
    obtain rfl : head = tail := h
    rfl
  | cons r pre ih =>
    obtain ⟨rfl, _, hread, h⟩ := h
    have hr := hplaced r mem_cons_self
    have hroom := hr.room
    have hbefore := hend r mem_cons_self
    rw [length_cons, ← add_assoc, locate_cons hread hr hsmall, if_neg (by omega), if_neg (by omega),
      ih h (fun s hs => hplaced s (mem_cons_of_mem _ hs)) fun s hs => hend s (mem_cons_of_mem _ hs)]
    rfl

/-- **A frame that shares a byte with a region is found out on the walk.** -/
theorem locate_overlap (h : Chain a head l none) (hsmall : a.length < 2 ^ 32) (hplaced : ∀ r ∈ l, r.Placed a.length)
    (hordered : l.Pairwise Before) {i : Nat} (hcovered : Covered l i) (hframe : frame.Holds i) (fuel : Nat)
    (previous : Option Nat) : a.locate frame (fuel + l.length) previous head = .error (.fault .corruptLifecycle) := by
  induction l generalizing head previous with
  | nil => exact absurd hcovered (not_covered_nil i)
  | cons r l ih =>
    obtain ⟨rfl, _, hread, h⟩ := h
    obtain ⟨hbefore, hordered⟩ := pairwise_cons.mp hordered
    have hr := hplaced r mem_cons_self
    obtain ⟨hlow, hhigh⟩ := hframe
    -- the byte is not in front of the region, so the frame does not end there
    have hbehind : r.base ≤ i := by
      rcases covered_cons.mp hcovered with hi | ⟨s, hs, hi⟩
      · exact hi.1
      · have hlt : r.base + r.byteLen < s.base := hbefore s hs
        have := hi.1
        omega
    rw [length_cons, ← add_assoc, locate_cons hread hr hsmall, if_neg (by omega)]
    by_cases hmeet : frame.base < r.base + r.byteLen
    · rw [if_pos hmeet]
    · rw [if_neg hmeet]
      refine ih h (fun s hs => hplaced s (mem_cons_of_mem _ hs)) hordered ?_ _
      refine (covered_cons.mp hcovered).resolve_left fun hi => ?_
      have := hi.2
      omega

theorem pop_overlap (h : Free a l) {i : Nat} (hcovered : Covered l i) (hframe : frame.Holds i) :
    a.pop frame = .error (.fault .corruptLifecycle) := by
  have hfuel := h.length_lt
  obtain ⟨fuel, hfuel⟩ : ∃ fuel, a.regionFuel = fuel + l.length := ⟨a.regionFuel - l.length, by omega⟩
  have hlocate := locate_overlap h.chain h.small h.placed h.ordered hcovered hframe fuel none
  have hne : frame.byteLen ≠ 0 := by
    obtain ⟨hlow, hhigh⟩ := hframe
    omega
  unfold pop release demand
  rw [if_neg hne, hfuel, hlocate]
  split
  · split <;> rfl
  · rfl

/-- The regions in front of a frame and those behind it. -/
theorem exists_place (frame : FrameReservation) (hordered : l.Pairwise Before)
    (happart : ∀ r ∈ l, frame.base + frame.byteLen ≤ r.base ∨ r.base + r.byteLen ≤ frame.base) :
    ∃ pre post, l = pre ++ post ∧ (∀ r ∈ pre, r.base + r.byteLen ≤ frame.base) ∧
      ∀ r ∈ post, frame.base + frame.byteLen ≤ r.base := by
  induction l with
  | nil => exact ⟨[], [], rfl, forall_mem_nil _, forall_mem_nil _⟩
  | cons r l ih =>
    obtain ⟨hbefore, hordered⟩ := pairwise_cons.mp hordered
    obtain ⟨hr, happart⟩ := forall_mem_cons.mp happart
    rcases hr with hr | hr
    · refine ⟨[], r :: l, rfl, forall_mem_nil _, forall_mem_cons.mpr ⟨hr, fun s hs => ?_⟩⟩
      have : r.base + r.byteLen < s.base := hbefore s hs
      omega
    · obtain ⟨pre, post, rfl, hpre, hpost⟩ := ih hordered happart
      exact ⟨r :: pre, post, rfl, forall_mem_cons.mpr ⟨hr, hpre⟩, hpost⟩

/-- The frame joined with the region behind it. -/
theorem joinNext_spec (h : Chain a head post none) (hframe : frame.Placed a.length) (hsmall : a.length < 2 ^ 32)
    (hplaced : ∀ r ∈ post, r.Placed a.length) (hordered : post.Pairwise Before)
    (hbehind : ∀ r ∈ post, frame.base + frame.byteLen ≤ r.base) :
    ∃ freeLen next rest, a.joinNext frame head = .ok (freeLen, next) ∧ Chain a next rest none ∧
      FrameReservation.Placed a.length ⟨frame.base, freeLen⟩ ∧ (∀ r ∈ rest, r.Placed a.length) ∧
      (FrameReservation.mk frame.base freeLen :: rest).Pairwise Before ∧
      ∀ i, Covered (⟨frame.base, freeLen⟩ :: rest) i ↔ frame.Holds i ∨ Covered post i := by
  unfold joinNext
  cases post with
  | nil =>
    obtain rfl : head = none := h
    exact ⟨frame.byteLen, none, [], rfl, rfl, hframe, hplaced, pairwise_singleton _ _, fun i => covered_cons⟩
  | cons r post =>
    obtain ⟨rfl, next, hread, hrest⟩ := id h
    obtain ⟨hbefore, hordered'⟩ := pairwise_cons.mp hordered
    obtain ⟨hr, hplaced'⟩ := forall_mem_cons.mp hplaced
    have hle := hbehind r mem_cons_self
    dsimp only
    by_cases htouch : frame.base + frame.byteLen = r.base
    · have hbound := hr.bound
      have hunits := hr.units
      have hunits' := hframe.units
      have hroom := hframe.room
      have hsum : frame.byteLen + r.byteLen < 2 ^ 32 := by omega
      rw [if_pos htouch, hread, ok_bind]
      rw [demand_decide hsum, ok_bind]
      refine ⟨_, next, post, rfl, hrest, ⟨hframe.aligned, ?_, ?_, ?_⟩, hplaced', ?_, fun i => ?_⟩
      · show (frame.byteLen + r.byteLen) % 8 = 0
        omega
      · show 8 ≤ frame.byteLen + r.byteLen
        omega
      · show frame.base + (frame.byteLen + r.byteLen) ≤ a.length
        omega
      · refine pairwise_cons.mpr ⟨fun s hs => (hbefore s hs).of_end_le ?_, hordered'⟩
        show frame.base + (frame.byteLen + r.byteLen) ≤ r.base + r.byteLen
        omega
      · rw [covered_cons, covered_cons, ← or_assoc]
        refine or_congr_left ?_
        unfold FrameReservation.Holds
        dsimp only
        omega
    · rw [if_neg htouch]
      refine ⟨_, some r.base, r :: post, rfl, h, hframe, hplaced, ?_, fun i => covered_cons⟩
      have hfirst : Before frame r := lt_of_le_of_ne hle htouch
      exact pairwise_cons.mpr
        ⟨forall_mem_cons.mpr ⟨hfirst, fun s hs => hfirst.trans (hbefore s hs)⟩, hordered⟩

/-- A place in the list for a frame, which already has the region behind it when the two touch. -/
structure Gap (a : FrameStack) (pre : List FrameReservation) (joined : FrameReservation) (next : Option Nat)
    (rest : List FrameReservation) : Prop where
  small : a.length < 2 ^ 32
  front : ∃ old, Chain a a.freeHead pre old
  behind : Chain a next rest none
  prePlaced : ∀ r ∈ pre, r.Placed a.length
  placed : joined.Placed a.length
  restPlaced : ∀ r ∈ rest, r.Placed a.length
  preOrdered : pre.Pairwise Before
  restOrdered : (joined :: rest).Pairwise Before
  frontEnds : ∀ r ∈ pre, r.base + r.byteLen ≤ joined.base

/-- The frame has been put into the list. -/
def Filled (a a' : FrameStack) (pre : List FrameReservation) (joined : FrameReservation)
    (rest : List FrameReservation) : Prop :=
  a'.length = a.length ∧ (∃ l', Free a' l' ∧ ∀ i, Covered l' i ↔ Covered pre i ∨ Covered (joined :: rest) i) ∧
    ∀ i, ¬ Covered pre i → ¬ joined.Holds i → a'.bytes i = a.bytes i

section Gaps

variable {joined p : FrameReservation} {rest : List FrameReservation}

theorem Gap.next_lt (h : Gap a pre joined next rest) : ∀ b ∈ next, b < absentRegion :=
  h.behind.head_lt h.small h.restPlaced

theorem Wrote.outside (hwrote : Wrote a a' r next) (hroom : 8 ≤ r.byteLen) {i : Nat} (hi : ¬ r.Holds i) :
    a'.bytes i = a.bytes i := by
  unfold FrameReservation.Holds at hi
  exact hwrote.bytes i (by omega)

/-- The frame becomes the first region. -/
theorem Gap.first (h : Gap a [] joined next rest) :
    ∃ a', writeFree { a with freeHead := some joined.base } joined.base next joined.byteLen = .ok a' ∧
      Filled a a' [] joined rest := by
  obtain ⟨a', hwrite, hwrote⟩ :=
    writeFree_spec (a := { a with freeHead := some joined.base }) h.placed h.small h.next_lt
  refine ⟨a', hwrite, hwrote.length, ⟨joined :: rest, ⟨?_, ?_, ?_, h.restOrdered⟩, fun i => ?_⟩,
    fun i _ hi => hwrote.outside h.placed.room hi⟩
  · rw [hwrote.length]
    exact h.small
  · rw [hwrote.freeHead]
    refine ⟨rfl, next, hwrote.header, Chain.of_wrote ?_ hwrote h.placed.room h.restPlaced fun s hs => .inr ?_⟩
    · exact h.behind.of_bytes rfl fun _ _ _ _ _ => rfl
    · exact (pairwise_cons.mp h.restOrdered).1 s hs
  · rw [hwrote.length]
    exact forall_mem_cons.mpr ⟨h.placed, h.restPlaced⟩
  · exact (or_iff_right (not_covered_nil i)).symm

/-- The region in front grows by the frame. -/
theorem Gap.grow (h : Gap a (pre ++ [p]) joined next rest) (htouch : p.base + p.byteLen = joined.base) :
    ∃ a', a.writeFree p.base next (p.byteLen + joined.byteLen) = .ok a' ∧ Filled a a' (pre ++ [p]) joined rest := by
  obtain ⟨old, hchain⟩ := h.front
  obtain ⟨_, hpre, rfl, -⟩ := chain_append.mp hchain
  obtain ⟨hprePlaced, hp⟩ := forall_mem_append.mp h.prePlaced
  have hp := hp p mem_cons_self
  obtain ⟨hpreOrdered, -, hpreBefore⟩ := pairwise_append.mp h.preOrdered
  obtain ⟨hjoinedBefore, hrestOrdered⟩ := pairwise_cons.mp h.restOrdered
  have hgrown : FrameReservation.Placed a.length ⟨p.base, p.byteLen + joined.byteLen⟩ := by
    have hunits := hp.units
    have hunits' := h.placed.units
    have hroom := hp.room
    have hbound := h.placed.bound
    exact ⟨hp.aligned, by dsimp only; omega, by dsimp only; omega, by dsimp only; omega⟩
  have hgrownBefore : ∀ s ∈ rest, Before ⟨p.base, p.byteLen + joined.byteLen⟩ s := by
    refine fun s hs => (hjoinedBefore s hs).of_end_le ?_
    show p.base + (p.byteLen + joined.byteLen) ≤ joined.base + joined.byteLen
    omega
  have hpreGrown : ∀ s ∈ pre, Before s ⟨p.base, p.byteLen + joined.byteLen⟩ :=
    fun s hs => hpreBefore s hs p mem_cons_self
  obtain ⟨a', hwrite, hwrote⟩ := writeFree_spec hgrown h.small h.next_lt
  refine ⟨a', hwrite, hwrote.length, ⟨pre ++ ⟨p.base, p.byteLen + joined.byteLen⟩ :: rest, ⟨?_, ?_, ?_, ?_⟩,
    fun i => ?_⟩, fun i hi _ => hwrote.bytes i ?_⟩
  · rw [hwrote.length]
    exact h.small
  · rw [hwrote.freeHead]
    refine chain_append.mpr ⟨some p.base, ?_, rfl, next, hwrote.header, ?_⟩
    · exact hpre.of_wrote hwrote hgrown.room hprePlaced fun s hs => .inl (hpreGrown s hs)
    · exact h.behind.of_wrote hwrote hgrown.room h.restPlaced fun s hs => .inr (hgrownBefore s hs)
  · rw [hwrote.length]
    exact forall_mem_append.mpr ⟨hprePlaced, forall_mem_cons.mpr ⟨hgrown, h.restPlaced⟩⟩
  · exact pairwise_append.mpr ⟨hpreOrdered, pairwise_cons.mpr ⟨hgrownBefore, hrestOrdered⟩, fun s hs =>
      forall_mem_cons.mpr ⟨hpreGrown s hs, fun t ht => (hpreGrown s hs).trans (hgrownBefore t ht)⟩⟩
  · have hmerge : FrameReservation.Holds ⟨p.base, p.byteLen + joined.byteLen⟩ i ↔ p.Holds i ∨ joined.Holds i := by
      unfold FrameReservation.Holds
      dsimp only
      omega
    simp only [covered_append, covered_cons, not_covered_nil, or_false, hmerge, or_assoc]
  · have hi : ¬ p.Holds i := fun hp => hi (covered_append.mpr (.inr (covered_cons.mpr (.inl hp))))
    have hroom := hp.room
    unfold FrameReservation.Holds at hi
    show i < p.base ∨ p.base + 8 ≤ i
    omega

/-- The frame becomes a region of its own. -/
theorem Gap.own (h : Gap a (pre ++ [p]) joined next rest) (hapart : p.base + p.byteLen ≠ joined.base) :
    ∃ linked a', a.writeFree p.base (some joined.base) p.byteLen = .ok linked ∧
      linked.writeFree joined.base next joined.byteLen = .ok a' ∧ Filled a a' (pre ++ [p]) joined rest := by
  obtain ⟨old, hchain⟩ := h.front
  obtain ⟨-, hp⟩ := forall_mem_append.mp h.prePlaced
  have hp := hp p mem_cons_self
  obtain ⟨-, -, hpreBefore⟩ := pairwise_append.mp h.preOrdered
  obtain ⟨hjoinedBefore, -⟩ := pairwise_cons.mp h.restOrdered
  have hpJoined : Before p joined :=
    lt_of_le_of_ne (h.frontEnds p (mem_append_right _ mem_cons_self)) hapart
  have hpreJoined : ∀ s ∈ pre ++ [p], Before s joined := forall_mem_append.mpr
    ⟨fun s hs => (hpreBefore s hs p mem_cons_self).trans hpJoined, forall_mem_singleton.mpr hpJoined⟩
  obtain ⟨-, linked, hlink, hlinked, hchain⟩ := hchain.relink (some joined.base) h.small h.prePlaced
    h.preOrdered fun b hb => by
      have hsmall := h.small
      have hroom := h.placed.room
      have hbound := h.placed.bound
      cases hb
      show joined.base < 2 ^ 32 - 1
      omega
  obtain ⟨a', hwrite, hwrote⟩ :=
    writeFree_spec (a := linked) (hlinked.length ▸ h.placed) (hlinked.length ▸ h.small) h.next_lt
  have hlength : a'.length = a.length := hwrote.length.trans hlinked.length
  refine ⟨linked, a', hlink, hwrite, hlength, ⟨(pre ++ [p]) ++ joined :: rest, ⟨hlength ▸ h.small, ?_, ?_, ?_⟩,
    fun i => covered_append⟩, fun i hi hi' => ?_⟩
  · refine chain_append.mpr ⟨some joined.base, ?_, rfl, next, hwrote.header, ?_⟩
    · rw [hwrote.freeHead, hlinked.freeHead]
      refine hchain.of_wrote hwrote h.placed.room (fun s hs => ?_) fun s hs => .inl (hpreJoined s hs)
      rw [hlinked.length]
      exact h.prePlaced s hs
    · refine Chain.of_wrote ?_ hwrote h.placed.room (fun s hs => hlinked.length ▸ h.restPlaced s hs)
        fun s hs => .inr (hjoinedBefore s hs)
      exact h.behind.of_wrote hlinked hp.room h.restPlaced fun s hs => .inr (hpJoined.trans (hjoinedBefore s hs))
  · rw [hlength]
    exact forall_mem_append.mpr ⟨h.prePlaced, forall_mem_cons.mpr ⟨h.placed, h.restPlaced⟩⟩
  · exact pairwise_append.mpr ⟨h.preOrdered, h.restOrdered, fun s hs =>
      forall_mem_cons.mpr ⟨hpreJoined s hs, fun t ht => (hpreJoined s hs).trans (hjoinedBefore t ht)⟩⟩
  · have hip : ¬ p.Holds i := fun hp => hi (covered_append.mpr (.inr (covered_cons.mpr (.inl hp))))
    rw [hwrote.outside h.placed.room hi', hlinked.outside hp.room hip]

end Gaps

/-- A release checks the frame, finds its place and joins it with the region behind it. -/
theorem release_located {previous next next' : Option Nat} {freeLen : Nat} (hframe : frame.Placed a.length)
    (hsmall : a.length < 2 ^ 32) (hlocate : a.locate frame a.regionFuel none a.freeHead = .ok (previous, next))
    (hjoin : a.joinNext frame next = .ok (freeLen, next')) :
    (previous = none →
      a.release frame = writeFree { a with freeHead := some frame.base } frame.base next' freeLen) ∧
    ∀ p : FrameReservation, previous = some p.base → p.base + p.byteLen < 2 ^ 32 →
      a.readFree p.base = .ok (next, p.byteLen) →
      a.release frame =
        (if p.base + p.byteLen = frame.base then do
          demand (p.byteLen + freeLen < 2 ^ 32) (.fault .corruptLifecycle)
          a.writeFree p.base next' (p.byteLen + freeLen)
        else do
          let a ← a.writeFree p.base (some frame.base) p.byteLen
          a.writeFree frame.base next' freeLen) := by
  have hroom := hframe.room
  have hbound := hframe.bound
  have haligned := hframe.aligned
  have hunits := hframe.units
  have hinside : demand (decide (frame.base + frame.byteLen < 2 ^ 32) &&
      decide (frame.base + frame.byteLen ≤ a.length)) (Refusal.fault .corruptLifecycle) = .ok () := by
    rw [demand_eq_ok, Bool.and_eq_true, decide_eq_true_eq, decide_eq_true_eq]
    omega
  have hshape : demand (frame.base % 8 == 0 && decide (8 ≤ frame.byteLen) && frame.byteLen % 8 == 0)
      (Refusal.fault .corruptLifecycle) = .ok () := by
    rw [demand_eq_ok, Bool.and_eq_true, Bool.and_eq_true, decide_eq_true_eq, beq_iff_eq, beq_iff_eq]
    omega
  unfold release
  rw [if_neg (by omega), hinside, ok_bind, hshape, ok_bind, hlocate, ok_bind]
  dsimp only
  rw [hjoin, ok_bind]
  refine ⟨fun hnone => ?_, fun p hsome hend hread => ?_⟩
  · rw [hnone]
  · rw [hsome]
    dsimp only
    rw [hread, ok_bind]
    rw [demand_decide hend, ok_bind]

/-- **A pop puts a frame that shares no byte with a region back**, joined with what it touches. -/
theorem pop_spec (h : Free a l) (hframe : frame.Placed a.length) (happart : ∀ i, frame.Holds i → ¬ Covered l i) :
    ∃ a' l', a.pop frame = .ok a' ∧ a'.length = a.length ∧ Free a' l' ∧
      (∀ i, Covered l' i ↔ Covered l i ∨ frame.Holds i) ∧
      ∀ i, ¬ Covered l i → ¬ frame.Holds i → a'.bytes i = a.bytes i := by
  have hsmall := h.small
  have hroom := hframe.room
  obtain ⟨pre, post, rfl, hfront, hbehind⟩ := exists_place frame h.ordered fun r hr => by
    have hr' := (h.placed r hr).room
    -- otherwise the later of the two starts lies in both
    have hlater := happart (max frame.base r.base)
    by_contra hmeet
    exact hlater ⟨by omega, by omega⟩ ⟨r, hr, by omega, by omega⟩
  obtain ⟨hpreOrdered, hpostOrdered, -⟩ := pairwise_append.mp h.ordered
  obtain ⟨hprePlaced, hpostPlaced⟩ := forall_mem_append.mp h.placed
  obtain ⟨mid, hpre, hpost⟩ := chain_append.mp h.chain
  obtain ⟨freeLen, next, rest, hjoin, hrest, hjoined, hrestPlaced, hrestOrdered, hcovered⟩ :=
    joinNext_spec hpost hframe hsmall hpostPlaced hpostOrdered hbehind
  have hgap : Gap a pre ⟨frame.base, freeLen⟩ next rest :=
    ⟨hsmall, ⟨mid, hpre⟩, hrest, hprePlaced, hjoined, hrestPlaced, hpreOrdered, hrestOrdered, hfront⟩
  have hlocate : a.locate frame a.regionFuel none a.freeHead = .ok (lastBase none pre, mid) := by
    have hfuel := h.length_lt
    rw [length_append] at hfuel
    obtain ⟨fuel, hfuel⟩ : ∃ fuel, a.regionFuel = fuel + 1 + pre.length := ⟨a.regionFuel - pre.length - 1, by omega⟩
    rw [hfuel, locate_skip hpre hsmall hprePlaced hfront]
    cases post with
    | nil =>
      obtain rfl : mid = none := hpost
      rfl
    | cons r =>
      obtain ⟨rfl, _, hread, -⟩ := hpost
      rw [locate_cons hread (hpostPlaced r mem_cons_self) hsmall, if_pos (hbehind r mem_cons_self)]
  suffices hfilled : ∃ a', a.pop frame = .ok a' ∧ Filled a a' pre ⟨frame.base, freeLen⟩ rest by
    obtain ⟨a', hpop, hlength, ⟨l', hfree, hl'⟩, hbytes⟩ := hfilled
    refine ⟨a', l', hpop, hlength, hfree, fun i => ?_, fun i hi hi' => hbytes i (fun hpre => ?_) fun hheld => ?_⟩
    · rw [hl', hcovered, covered_append, or_assoc]
      exact or_congr_right or_comm
    · exact hi (covered_append.mpr (.inl hpre))
    · rcases (hcovered i).mp (covered_cons.mpr (.inl hheld)) with hf | hpost
      · exact hi' hf
      · exact hi (covered_append.mpr (.inr hpost))
  obtain ⟨hnone, hsome⟩ := release_located hframe hsmall hlocate hjoin
  rw [pop]
  rcases eq_nil_or_concat' pre with rfl | ⟨init, p, rfl⟩
  · rw [hnone rfl]
    exact hgap.first
  · have hbound := (hprePlaced p (mem_append_right _ mem_cons_self)).bound
    have hjoinedBound : frame.base + freeLen ≤ a.length := hjoined.bound
    obtain ⟨hread, -⟩ := hpre.relink none hsmall hprePlaced hpreOrdered fun b hb => nomatch hb
    rw [hsome p (lastBase_concat none p) (by omega) hread]
    by_cases htouch : p.base + p.byteLen = frame.base
    · have hsum : p.byteLen + freeLen < 2 ^ 32 := by omega
      rw [if_pos htouch, demand_decide hsum, ok_bind]
      exact hgap.grow htouch
    · obtain ⟨linked, a', hlink, hwrite, hfilled⟩ := hgap.own htouch
      rw [if_neg htouch, show a.writeFree p.base (some frame.base) p.byteLen = .ok linked from hlink, ok_bind]
      exact ⟨a', hwrite, hfilled⟩

/-! ## Packed arenas

While frames are only pushed and popped in the order of a stack the free list has at most one region, which
reaches to the end. -/

/-- The regions of an arena that is packed up to `used`. -/
def tailRegion (length used : Nat) : List FrameReservation :=
  if used < length then [⟨used, length - used⟩] else []

theorem covered_tailRegion {length used : Nat} (hbound : used ≤ length) (i : Nat) :
    Covered (tailRegion length used) i ↔ used ≤ i ∧ i < length := by
  unfold tailRegion
  split
  · rw [covered_cons, or_iff_left (fun h => not_covered_nil i h)]
    unfold FrameReservation.Holds
    dsimp only
    omega
  · exact ⟨fun h => absurd h (not_covered_nil i), fun h => by omega⟩

variable {used : Nat}

theorem Packed.free (h : Packed a used) : Free a (tailRegion a.length used) := by
  have hhead := h.head
  have hunits := h.units
  have hused := h.usedUnits
  unfold tailRegion
  split
  next hroom =>
    rw [if_pos hroom] at hhead
    refine ⟨h.small, ⟨hhead, none, h.region hroom, rfl⟩, fun r hr => ?_, pairwise_singleton _ _⟩
    rw [mem_singleton.mp hr]
    exact ⟨hused, by dsimp only; omega, by dsimp only; omega, by dsimp only; omega⟩
  next hfull =>
    rw [if_neg hfull] at hhead
    exact ⟨h.small, hhead, forall_mem_nil _, .nil⟩

/-- Regions keep apart, so those that cover an interval without a gap are one. -/
theorem Free.eq_tailRegion (h : Free a l) (hbound : used ≤ a.length)
    (hcover : ∀ i, Covered l i ↔ used ≤ i ∧ i < a.length) : l = tailRegion a.length used := by
  refine eq_of_covered_iff h.ordered ?_ h.room ?_ fun i => (hcover i).trans (covered_tailRegion hbound i).symm
  · unfold tailRegion
    split
    · exact pairwise_singleton ..
    · exact .nil
  · unfold tailRegion
    split <;> simp [*]

theorem Free.packed (h : Free a (tailRegion a.length used)) (hbound : used ≤ a.length)
    (hused : used % 8 = 0) (hunits : a.length % 8 = 0) : Packed a used := by
  obtain ⟨hsmall, hchain, -, -⟩ := h
  refine ⟨hbound, hsmall, hused, hunits, ?_, fun hroom => ?_⟩
  · unfold tailRegion at hchain
    split at hchain
    next hroom => rw [if_pos hroom]; exact hchain.1
    next hfull => rw [if_neg hfull]; exact hchain
  · rw [tailRegion, if_pos hroom] at hchain
    obtain ⟨-, next, hread, hlast⟩ := hchain
    rw [hread, show next = none from hlast]

/-- **A push takes the next bytes of a packed arena.** -/
theorem push_packed {used : Nat} (h : Packed a used)
    (hn : align layout.byteLen 8 = some n) (hroom : used + n ≤ a.length) :
    ∃ a', a.push layout = .ok (a', ⟨if n = 0 then 0 else used, n⟩) ∧ a'.length = a.length ∧ Packed a' (used + n) := by
  by_cases hzero : n = 0
  · subst hzero
    refine ⟨a, ?_, rfl, h⟩
    unfold push
    rw [hn]
    rfl
  · have hunits := align_eight_mod hn
    have hused := h.usedUnits
    have hfree := h.free
    rw [tailRegion, if_pos (by omega)] at hfree
    obtain ⟨a', hpush, hlength, hfree', -⟩ := push_spec (show Free a ([] ++ _ :: []) from hfree) hn hzero
      (forall_mem_nil _)
      (by dsimp only; omega)
    refine ⟨a', by rw [if_neg hzero]; exact hpush, hlength, ?_⟩
    have hrest : remainder ⟨used, a.length - used⟩ n ++ [] = tailRegion a'.length (used + n) := by
      rw [append_nil, hlength, remainder, tailRegion]
      by_cases hfull : a.length - used = n
      · rw [if_pos (by dsimp only; omega), if_neg (by omega)]
      · rw [if_neg (by dsimp only; omega), if_pos (by omega), Nat.sub_sub]
    exact (hrest ▸ hfree').packed (by omega) (by omega) (hlength ▸ h.units)

/-- **Every frame in front of the region can be released**, and releasing the last one leaves the arena
packed. -/
theorem pop_packed {used base : Nat} (h : Packed a used) (hbase : base % 8 = 0) (hn : n % 8 = 0) (hpos : 0 < n)
    (hend : base + n ≤ used) :
    ∃ a', a.pop ⟨base, n⟩ = .ok a' ∧ a'.length = a.length ∧ (base + n = used → Packed a' base) := by
  have hbound := h.bound
  have hcover := covered_tailRegion hbound
  obtain ⟨a', l, hpop, hlength, hfree, hgrown, -⟩ := pop_spec h.free
    (show FrameReservation.Placed _ ⟨base, n⟩ from ⟨hbase, hn, by dsimp only; omega, by dsimp only; omega⟩)
    fun i hi hin => by
      have := (hcover i).mp hin
      have : i < base + n := hi.2
      omega
  refine ⟨a', hpop, hlength, fun htouch => ?_⟩
  have hall : ∀ i, Covered l i ↔ base ≤ i ∧ i < a'.length := fun i => by
    rw [hgrown, hcover, hlength]
    unfold FrameReservation.Holds
    dsimp only
    omega
  exact (hfree.eq_tailRegion (by omega) hall ▸ hfree).packed (by omega) hbase (hlength ▸ h.units)

end FrameStack

end Compukter.Image
