/-
Runs of the frame arena.

The operations of the arena change it in place and can fail half way.  `pushInPlace` and `popInPlace` keep
the order of the writes: a failure carries the arena as it is at that point.  A pop has made all its checks
before its first write, and a push into an arena whose regions are in order only fails on its walk, so a
refused operation leaves the arena as it found it.

Over a run, in which frames of any number of tasks are pushed and popped in any order, the regions and the
frames partition the arena.
-/
import Compukter.Image.Regions

namespace Compukter.Image

open Bytes Fallible FrameStack Nat Refusal List

/-! ## The operations in place -/

abbrev ArenaM := EStateM Refusal FrameStack

namespace ArenaM

variable {α β : Type} {a a' : FrameStack}

/-- A step that only looks at the arena. -/
def reading (f : FrameStack → Except Refusal α) : ArenaM α := fun a =>
  match f a with
  | .ok x => .ok x a
  | .error e => .error e a

/-- A step that changes the arena when it succeeds. -/
def writing (f : FrameStack → Except Refusal FrameStack) : ArenaM Unit := fun a =>
  match f a with
  | .ok a' => .ok () a'
  | .error e => .error e a

variable {f : FrameStack → Except Refusal α}

theorem reading_ok {x : α} (h : f a = .ok x) (g : α → ArenaM β) : (reading f >>= g) a = g x a := by
  show EStateM.bind _ _ _ = _
  rw [EStateM.bind, reading, h]

theorem reading_error {e : Refusal} (h : f a = .error e) (g : α → ArenaM β) : (reading f >>= g) a = .error e a := by
  show EStateM.bind _ _ _ = _
  rw [EStateM.bind, reading, h]

variable {f : FrameStack → Except Refusal FrameStack}

theorem writing_ok (h : f a = .ok a') (g : Unit → ArenaM β) : (writing f >>= g) a = g () a' := by
  show EStateM.bind _ _ _ = _
  rw [EStateM.bind, writing, h]

theorem writing_error {e : Refusal} (h : f a = .error e) (g : Unit → ArenaM β) : (writing f >>= g) a = .error e a := by
  show EStateM.bind _ _ _ = _
  rw [EStateM.bind, writing, h]

theorem modify_bind (f : FrameStack → FrameStack) (g : PUnit → ArenaM β) :
    ((modify f : ArenaM PUnit) >>= g) a = g () (f a) := rfl

end ArenaM

open ArenaM

def splitInPlace (region byteLen : Nat) (next : Option Nat) (remaining : Nat) : ArenaM (Option Nat) :=
  if remaining = 0 then return next
  else if region + byteLen < 2 ^ 32 then do
    writing (·.writeFree (region + byteLen) next remaining)
    return some (region + byteLen)
  else throw (.fault .invalidStoragePlan)

def takeInPlace (byteLen : Nat) : Nat → Option Nat → Option Nat → ArenaM Nat
  | 0, _, _ => throw .endless
  | _ + 1, _, none => throw (.fault .invalidStoragePlan)
  | fuel + 1, previous, some region => do
    let (next, available) ← reading (·.readFree region)
    if byteLen ≤ available then
      let replacement ← splitInPlace region byteLen next (available - byteLen)
      match previous with
      | some previous =>
        let (_, previousLen) ← reading (·.readFree previous)
        writing (·.writeFree previous replacement previousLen)
        return region
      | none =>
        modify fun a => { a with freeHead := replacement }
        return region
    else takeInPlace byteLen fuel (some region) next

def pushInPlace (layout : FrameShape) : ArenaM FrameReservation := do
  let byteLen ← reading fun _ => demandSome (align layout.byteLen 8) (.fault .invalidStoragePlan)
  if byteLen = 0 then return ⟨0, 0⟩
  let (fuel, head) ← reading fun a => .ok (a.regionFuel, a.freeHead)
  let base ← takeInPlace byteLen fuel none head
  reading fun a => demand (base + byteLen < 2 ^ 32 && base + byteLen ≤ a.length) (.fault .invalidStoragePlan)
  modify fun a => { a with bytes := fun i => if base ≤ i ∧ i < base + byteLen then 0 else a.bytes i }
  return ⟨base, byteLen⟩

def popInPlace (frame : FrameReservation) : ArenaM Unit :=
  if frame.byteLen = 0 then return
  else do
    reading fun a => demand (frame.base + frame.byteLen < 2 ^ 32 && frame.base + frame.byteLen ≤ a.length)
      (.fault .corruptLifecycle)
    reading fun _ => demand (frame.base % 8 == 0 && 8 ≤ frame.byteLen && frame.byteLen % 8 == 0)
      (.fault .corruptLifecycle)
    let (previous, next) ← reading fun a => a.locate frame a.regionFuel none a.freeHead
    let (freeLen, next) ← reading (·.joinNext frame next)
    match previous with
    | some region =>
      let (_, regionLen) ← reading (·.readFree region)
      reading fun _ => demand (region + regionLen < 2 ^ 32) (.fault .corruptLifecycle)
      if region + regionLen = frame.base then
        reading fun _ => demand (regionLen + freeLen < 2 ^ 32) (.fault .corruptLifecycle)
        writing (·.writeFree region next (regionLen + freeLen))
      else
        writing (·.writeFree region (some frame.base) regionLen)
        writing (·.writeFree frame.base next freeLen)
    | none =>
      modify fun a => { a with freeHead := some frame.base }
      writing (·.writeFree frame.base next freeLen)

/-! ## What a refused operation leaves -/

section Steps

variable {a a' : FrameStack} {frame : FrameReservation} {layout : FrameShape} {n : Nat}
  {l : List FrameReservation} {head : Option Nat}

/-- **A pop that is refused leaves the arena as it is**, and one that succeeds is the pop of the arena. -/
theorem popInPlace_eq (a : FrameStack) (frame : FrameReservation) :
    popInPlace frame a =
      match a.pop frame with
      | .ok a' => .ok () a'
      | .error e => .error e a := by
  unfold popInPlace pop release
  by_cases hzero : frame.byteLen = 0
  · rw [if_pos hzero, if_pos hzero]
    rfl
  rw [if_neg hzero, if_neg hzero]
  cases hinside : demand (frame.base + frame.byteLen < 2 ^ 32 && frame.base + frame.byteLen ≤ a.length)
    (fault .corruptLifecycle) with
  | error e => rw [reading_error hinside, error_bind]
  | ok u =>
  rw [reading_ok hinside, ok_bind]
  cases hshape : demand (frame.base % 8 == 0 && 8 ≤ frame.byteLen && frame.byteLen % 8 == 0)
    (fault .corruptLifecycle) with
  | error e => rw [reading_error (f := fun _ => .error e) rfl, error_bind]
  | ok u =>
  rw [reading_ok (f := fun _ => .ok u) rfl, ok_bind]
  cases hlocate : a.locate frame a.regionFuel none a.freeHead with
  | error e => rw [reading_error hlocate, error_bind]
  | ok place =>
  obtain ⟨previous, next⟩ := place
  rw [reading_ok hlocate, ok_bind]
  dsimp only
  cases hjoin : a.joinNext frame next with
  | error e => rw [reading_error hjoin, error_bind]
  | ok joined =>
  obtain ⟨freeLen, next⟩ := joined
  rw [reading_ok hjoin, ok_bind]
  -- the last write cannot fail: the header lies in the frame
  have hwrite : ∀ b : FrameStack, b.length = a.length → ∃ b', b.writeFree frame.base next freeLen = .ok b' := by
    intro b hlength
    rw [demand_eq_ok, Bool.and_eq_true, decide_eq_true_eq, decide_eq_true_eq] at hinside
    rw [demand_eq_ok, Bool.and_eq_true, Bool.and_eq_true, decide_eq_true_eq] at hshape
    exact ⟨_, writeFree_ok (by omega)⟩
  cases previous with
  | none =>
    obtain ⟨b', hb'⟩ := hwrite { a with freeHead := some frame.base } rfl
    dsimp only
    rw [modify_bind, writing, hb']
  | some region =>
    dsimp only
    cases hread : a.readFree region with
    | error e => rw [reading_error hread, error_bind]
    | ok header =>
    obtain ⟨_, regionLen⟩ := header
    rw [reading_ok hread, ok_bind]
    cases hend : demand (region + regionLen < 2 ^ 32) (fault .corruptLifecycle) with
    | error e => rw [reading_error (f := fun _ => .error e) rfl, error_bind]
    | ok u =>
    rw [reading_ok (f := fun _ => .ok u) rfl, ok_bind]
    by_cases htouch : region + regionLen = frame.base
    · rw [if_pos htouch, if_pos htouch]
      cases hsum : demand (regionLen + freeLen < 2 ^ 32) (fault .corruptLifecycle) with
      | error e => rw [reading_error (f := fun _ => .error e) rfl, error_bind]
      | ok u =>
        rfl
    · rw [if_neg htouch, if_neg htouch]
      cases hlink : a.writeFree region (some frame.base) regionLen with
      | error e => rw [writing_error hlink, error_bind]
      | ok b =>
        have hlength : b.length = a.length := by
          unfold writeFree at hlink
          split at hlink
          · cases hlink
            rfl
          · cases hlink
        obtain ⟨b', hb'⟩ := hwrite b hlength
        rw [writing_ok hlink, ok_bind, writing, hb']

theorem splitInPlace_ok {region remaining : Nat} {next replacement : Option Nat}
    (h : a.splitRegion region n next remaining = .ok (a', replacement)) :
    splitInPlace region n next remaining a = .ok replacement a' := by
  unfold splitRegion at h
  unfold splitInPlace
  by_cases hzero : remaining = 0
  · rw [if_pos hzero] at h ⊢
    cases h
    rfl
  · rw [if_neg hzero] at h ⊢
    by_cases hsmall : region + n < 2 ^ 32
    · rw [if_pos hsmall] at h ⊢
      obtain ⟨b, hwrite, h⟩ := bind_eq_ok.mp h
      cases h
      rw [writing_ok hwrite]
      rfl
    · rw [if_neg hsmall] at h
      cases h

theorem takeInPlace_ok {fuel base : Nat} {previous current : Option Nat}
    (h : a.takeRegion n fuel previous current = .ok (a', base)) :
    takeInPlace n fuel previous current a = .ok base a' := by
  induction fuel generalizing previous current with
  | zero => cases h
  | succ fuel ih =>
    cases current with
    | none => cases h
    | some region =>
      obtain ⟨⟨_, available⟩, hread, h⟩ := bind_eq_ok.mp h
      dsimp only at h
      rw [takeInPlace, reading_ok hread]
      dsimp only
      by_cases hfit : n ≤ available
      · rw [if_pos hfit] at h ⊢
        obtain ⟨⟨b, _⟩, hsplit, h⟩ := bind_eq_ok.mp h
        show EStateM.bind _ _ _ = _
        rw [EStateM.bind, splitInPlace_ok hsplit]
        cases previous with
        | none =>
          cases h
          rfl
        | some previous =>
          obtain ⟨⟨_, _⟩, hlast, h⟩ := bind_eq_ok.mp h
          obtain ⟨b', hwrite, h⟩ := bind_eq_ok.mp h
          cases h
          dsimp only
          rw [reading_ok hlast, writing_ok hwrite]
          rfl
      · rw [if_neg hfit] at h ⊢
        exact ih h

theorem pushInPlace_ok (h : a.push layout = .ok (a', frame)) : pushInPlace layout a = .ok frame a' := by
  obtain ⟨n, hn, h⟩ := bind_eq_ok.mp h
  unfold pushInPlace
  rw [reading_ok hn]
  by_cases hzero : n = 0
  · rw [if_pos hzero] at h ⊢
    cases h
    rfl
  · rw [if_neg hzero] at h ⊢
    obtain ⟨⟨b, _⟩, htake, h⟩ := bind_eq_ok.mp h
    obtain ⟨u, hinside, h⟩ := bind_eq_ok.mp h
    cases h
    rw [reading_ok (f := fun a => .ok (a.regionFuel, a.freeHead)) rfl]
    show EStateM.bind _ _ _ = _
    rw [EStateM.bind, takeInPlace_ok htake]
    dsimp only
    rw [reading_ok hinside]
    rfl

/-- A walk that finds no region long enough only reads. -/
theorem takeInPlace_short (h : a.Chain head l none) (hshort : ∀ r ∈ l, r.byteLen < n) (fuel : Nat)
    (previous : Option Nat) :
    takeInPlace n (fuel + 1 + l.length) previous head a = .error (.fault .invalidStoragePlan) a := by
  induction l generalizing head previous with
  | nil =>
    obtain rfl : head = none := h
    rfl
  | cons r l ih =>
    obtain ⟨rfl, _, hread, h⟩ := h
    have hr := hshort r mem_cons_self
    rw [length_cons, ← add_assoc, takeInPlace, reading_ok hread]
    dsimp only
    rw [if_neg (by omega)]
    exact ih h (fun s hs => hshort s (mem_cons_of_mem _ hs)) _

/-- **The outcomes of a push**: nothing is taken, a frame is taken from the regions and cleared, or the arena
is as it was. -/
theorem pushInPlace_spec (h : a.Free l) (layout : FrameShape) : pushInPlace layout a = .ok ⟨0, 0⟩ a ∨
      (∃ a' frame l', pushInPlace layout a = .ok frame a' ∧ a'.length = a.length ∧ a'.Free l' ∧
        frame.Placed a.length ∧ (∀ i, Covered l i ↔ Covered l' i ∨ frame.Holds i) ∧
        (∀ i, frame.Holds i → ¬ Covered l' i) ∧ ∀ i, frame.Holds i → a'.bytes i = 0) ∨
      ∃ e, pushInPlace layout a = .error e a := by
  cases hn : align layout.byteLen 8 with
  | none =>
    refine .inr (.inr ⟨.fault .invalidStoragePlan, ?_⟩)
    unfold pushInPlace
    rw [reading_error (by rw [hn]; rfl)]
  | some n =>
    have hunits : n % 8 = 0 := by
      obtain ⟨-, rfl⟩ := align_eq_some hn
      exact mul_mod_left _ 8
    by_cases hzero : n = 0
    · refine .inl (pushInPlace_ok ?_)
      unfold push
      rw [hn, hzero]
      rfl
    rcases exists_fit l n with hshort | ⟨pre, r, post, rfl, hshort, hfit⟩
    · have hfuel := h.length_lt
      obtain ⟨fuel, hfuel⟩ : ∃ fuel, a.regionFuel = fuel + 1 + l.length := ⟨a.regionFuel - l.length - 1, by omega⟩
      refine .inr (.inr ⟨.fault .invalidStoragePlan, ?_⟩)
      unfold pushInPlace
      rw [reading_ok (x := n) (by rw [hn]; rfl), if_neg hzero,
        reading_ok (f := fun a => .ok (a.regionFuel, a.freeHead)) rfl]
      show EStateM.bind _ _ _ = _
      rw [EStateM.bind, hfuel, takeInPlace_short h.chain hshort]
    · obtain ⟨a', hpush, hlength, hfree, hclear, -⟩ := push_spec h hn hzero hshort hfit
      have hr := h.placed r (mem_append_right _ mem_cons_self)
      have hbound := hr.bound
      refine .inr (.inl ⟨a', _, _, pushInPlace_ok hpush, hlength, hfree,
        ⟨hr.aligned, hunits, by dsimp only; omega, by dsimp only; omega⟩, fun i => ?_, fun i hi hcovered => ?_, hclear⟩)
      · have := covered_remainder hfit i
        simp only [covered_append, covered_cons, this]
        tauto
      · obtain ⟨-, hrest, hacross⟩ := pairwise_append.mp h.ordered
        have hlow : r.base ≤ i := hi.1
        have hhigh : i < r.base + n := hi.2
        rcases covered_append.mp hcovered with ⟨s, hs, hin⟩ | hcovered
        · have : s.base + s.byteLen < r.base := hacross s hs r mem_cons_self
          have := hin.2
          omega
        rcases covered_append.mp hcovered with ⟨s, hs, hin⟩ | ⟨s, hs, hin⟩
        · have := (remainder_placed hr hunits hfit s hs).2.1
          have := hin.1
          omega
        · have : r.base + r.byteLen < s.base := (pairwise_cons.mp hrest).1 s hs
          have := hin.1
          omega

end Steps

/-! ## The list of regions -/

namespace FrameStack

/-- The regions that a walk along the headers finds. -/
def regionsFrom (a : FrameStack) : Nat → Option Nat → List FrameReservation
  | fuel + 1, some base =>
    match a.readFree base with
    | .ok (next, length) => ⟨base, length⟩ :: regionsFrom a fuel next
    | .error _ => []
  | _, _ => []

def freeRegions (a : FrameStack) : List FrameReservation := a.regionsFrom a.regionFuel a.freeHead

variable {l : List FrameReservation} {a : FrameStack}

theorem Chain.regionsFrom_eq {head : Option Nat} (h : Chain a head l none) {fuel : Nat}
    (hfuel : l.length ≤ fuel) : a.regionsFrom fuel head = l := by
  induction l generalizing head fuel with
  | nil =>
    obtain rfl : head = none := h
    cases fuel <;> rfl
  | cons r l ih =>
    obtain ⟨rfl, _, hread, h⟩ := h
    obtain ⟨fuel, rfl⟩ : ∃ k, fuel = k + 1 := ⟨fuel - 1, by rw [length_cons] at hfuel; omega⟩
    rw [regionsFrom, hread]
    dsimp only
    rw [ih h (le_of_succ_le_succ hfuel)]

theorem Free.freeRegions_eq (h : Free a l) : a.freeRegions = l :=
  h.chain.regionsFrom_eq (le_of_lt h.length_lt)

/-- The bytes of the frames are free to change. -/
theorem Free.of_bytes {a' : FrameStack} (h : Free a l) (hlength : a'.length = a.length)
    (hhead : a'.freeHead = a.freeHead) (hbytes : ∀ i, Covered l i → a'.bytes i = a.bytes i) : Free a' l := by
  refine ⟨hlength ▸ h.small, ?_, fun r hr => hlength ▸ h.placed r hr, h.ordered⟩
  rw [hhead]
  refine h.chain.of_bytes hlength fun r hr i hlow hhigh => hbytes i ⟨r, hr, hlow, ?_⟩
  have := (h.placed r hr).room
  omega

theorem new_free {capacity : Nat} (hsmall : capacity < 2 ^ 32) (hunits : capacity % 8 = 0) :
    ∃ a, new capacity = .ok a ∧ a.length = capacity ∧ Free a (if capacity = 0 then [] else [⟨0, capacity⟩]) := by
  obtain ⟨a, hnew, rfl, hpacked⟩ := new_packed hsmall hunits
  refine ⟨a, hnew, rfl, ?_⟩
  have hfree := hpacked.free
  unfold tailRegion at hfree
  by_cases hzero : a.length = 0
  · rw [if_neg (by omega)] at hfree
    rwa [if_pos hzero]
  · rw [if_pos (by omega)] at hfree
    rwa [if_neg hzero]

end FrameStack

/-! ## Runs -/

/-- An arena and the frames that have been pushed and not popped. -/
structure ArenaRun where
  arena : FrameStack
  live : List FrameReservation

inductive ArenaEvent
  | push (layout : FrameShape)
  | pop (frame : FrameReservation)
  /-- Not of the arena: its user writes a byte of a frame. -/
  | store (address : Nat) (value : UInt8)
  deriving DecidableEq

namespace ArenaRun

/-- A refused operation may leave a changed arena. -/
def next (s : ArenaRun) : ArenaEvent → ArenaRun
  | .push layout =>
    match pushInPlace layout s.arena with
    | .ok frame arena => ⟨arena, frame :: s.live⟩
    | .error _ arena => ⟨arena, s.live⟩
  | .pop frame =>
    match popInPlace frame s.arena with
    | .ok _ arena => ⟨arena, s.live.erase frame⟩
    | .error _ arena => ⟨arena, s.live⟩
  | .store address value =>
    ⟨{ s.arena with bytes := fun i => if i = address then value else s.arena.bytes i }, s.live⟩

def run : ArenaRun → List ArenaEvent → ArenaRun
  | s, [] => s
  | s, event :: events => run (s.next event) events

/-- Every layout may be pushed.  A reservation may be popped when it is live, and also when it is not and
shares a byte with a region.  The bytes of the live frames may be written. -/
def Permits (s : ArenaRun) : ArenaEvent → Prop
  | .push _ => True
  | .pop frame => frame ∈ s.live ∨ ∃ i < s.arena.length, frame.Holds i ∧ Covered s.arena.freeRegions i
  | .store address _ => Covered s.live address

instance (s : ArenaRun) (event : ArenaEvent) : Decidable (s.Permits event) := by
  cases event <;> (unfold Permits; infer_instance)

def Permitted : ArenaRun → List ArenaEvent → Prop
  | _, [] => True
  | s, event :: events => s.Permits event ∧ Permitted (s.next event) events

instance decidablePermitted (s : ArenaRun) : (events : List ArenaEvent) → Decidable (s.Permitted events)
  | [] => inferInstanceAs (Decidable True)
  | event :: events =>
    have := decidablePermitted (s.next event) events
    inferInstanceAs (Decidable (_ ∧ _))

/-- Two reservations without a byte in common. -/
def Apart (r s : FrameReservation) : Prop := ∀ i, r.Holds i → ¬ s.Holds i

theorem Apart.symm {r s : FrameReservation} (h : Apart r s) : Apart s r := fun i hs hr => h i hr hs

/-- **The regions and the frames partition the arena.** -/
structure Tiled (s : ArenaRun) (l : List FrameReservation) : Prop where
  free : s.arena.Free l
  frames : ∀ frame ∈ s.live, frame.byteLen = 0 ∨ frame.Placed s.arena.length
  apart : ∀ frame ∈ s.live, ∀ i, frame.Holds i → ¬ Covered l i
  distinct : s.live.Pairwise Apart
  cover : ∀ i < s.arena.length, Covered l i ∨ Covered s.live i

variable {s : ArenaRun} {l : List FrameReservation}

section

variable (h : Tiled s l)
include h

theorem Tiled.push (layout : FrameShape) :
    (s.next (.push layout)).arena.length = s.arena.length ∧ ∃ l', Tiled (s.next (.push layout)) l' := by
  unfold next
  dsimp only
  rcases pushInPlace_spec h.free layout with e | ⟨a', frame, l', e, hlength, hfree, hplaced, hl, hout, -⟩ | ⟨f, e⟩
  · rw [e]
    refine ⟨rfl, l, h.free, ?_, ?_, ?_, fun i hi => (h.cover i hi).imp_right fun hlive => ?_⟩
    · exact forall_mem_cons.mpr ⟨.inl rfl, h.frames⟩
    · exact forall_mem_cons.mpr ⟨fun i hi => absurd hi.2 (not_lt_zero i), h.apart⟩
    · exact pairwise_cons.mpr ⟨fun _ _ i hi => absurd hi.2 (not_lt_zero i), h.distinct⟩
    · exact covered_cons.mpr (.inr hlive)
  · rw [e]
    refine ⟨hlength, l', hfree, ?_, ?_, ?_, fun i hi => ?_⟩
    · rw [hlength]
      exact forall_mem_cons.mpr ⟨.inr hplaced, h.frames⟩
    · exact forall_mem_cons.mpr ⟨hout, fun f hf i hi hc => h.apart f hf i hi ((hl i).mpr (.inl hc))⟩
    · exact pairwise_cons.mpr ⟨fun f hf i hi hi' => h.apart f hf i hi' ((hl i).mpr (.inr hi)), h.distinct⟩
    · rcases h.cover i (hlength ▸ hi) with hc | hlive
      · rcases (hl i).mp hc with hc | hframe
        · exact .inl hc
        · exact .inr (covered_cons.mpr (.inl hframe))
      · exact .inr (covered_cons.mpr (.inr hlive))
  · rw [e]
    exact ⟨rfl, l, h⟩

variable {frame : FrameReservation}

/-- Popping a live frame that is not empty. -/
theorem Tiled.pop_live (hlive : frame ∈ s.live) (hne : frame.byteLen ≠ 0) :
    ∃ a' l', popInPlace frame s.arena = .ok () a' ∧ a'.length = s.arena.length ∧ a'.Free l' ∧
      ∀ i, Covered l' i ↔ Covered l i ∨ frame.Holds i := by
  obtain ⟨a', l', hpop, hlength, hfree, hl', -⟩ :=
    pop_spec h.free ((h.frames frame hlive).resolve_left hne) (h.apart frame hlive)
  refine ⟨a', l', ?_, hlength, hfree, hl'⟩
  rw [popInPlace_eq, hpop]

/-- Popping a reservation that shares a byte with a region. -/
theorem Tiled.pop_covered {i : Nat} (hframe : frame.Holds i) (hcovered : Covered l i) :
    popInPlace frame s.arena = .error (.fault .corruptLifecycle) s.arena := by
  rw [popInPlace_eq, pop_overlap h.free hcovered hframe]

theorem Tiled.pop (hp : s.Permits (.pop frame)) :
    (s.next (.pop frame)).arena.length = s.arena.length ∧ ∃ l', Tiled (s.next (.pop frame)) l' := by
  unfold next
  dsimp only
  rcases hp with hlive | ⟨i, -, hframe, hcovered⟩
  · have hsub : ∀ f ∈ s.live.erase frame, f ∈ s.live := fun f hf => mem_of_mem_erase hf
    -- the other frames have no byte of this one
    have hothers : ∀ f ∈ s.live.erase frame, Apart frame f := by
      have hperm := (perm_cons_erase hlive).pairwise_iff (R := Apart) fun {_ _} => Apart.symm
      exact (pairwise_cons.mp (hperm.mp h.distinct)).1
    have hstill : ∀ i, Covered s.live i → frame.Holds i ∨ Covered (s.live.erase frame) i := by
      rintro i ⟨f, hf, hi⟩
      by_cases hsame : f = frame
      · exact .inl (hsame ▸ hi)
      · exact .inr ⟨f, (mem_erase_of_ne hsame).mpr hf, hi⟩
    by_cases hzero : frame.byteLen = 0
    · have hpop : popInPlace frame s.arena = .ok () s.arena := by
        unfold popInPlace
        rw [if_pos hzero]
        rfl
      have hempty : ∀ i, ¬ frame.Holds i := by
        intro i ⟨hlow, hhigh⟩
        omega
      rw [hpop]
      exact ⟨rfl, l, h.free, fun f hf => h.frames f (hsub f hf), fun f hf => h.apart f (hsub f hf),
        h.distinct.sublist erase_sublist,
        fun i hi => (h.cover i hi).imp_right fun hc => (hstill i hc).resolve_left (hempty i)⟩
    · obtain ⟨a', l', hpop, hlength, hfree, hl'⟩ := h.pop_live hlive hzero
      rw [hpop]
      refine ⟨hlength, l', hfree, fun f hf => ?_, fun f hf i hi hc => ?_, h.distinct.sublist erase_sublist,
        fun i hi => ?_⟩
      · rw [hlength]
        exact h.frames f (hsub f hf)
      · rcases (hl' i).mp hc with hc | hframe
        · exact h.apart f (hsub f hf) i hi hc
        · exact hothers f hf i hframe hi
      · rcases h.cover i (hlength ▸ hi) with hc | hc
        · exact .inl ((hl' i).mpr (.inl hc))
        · exact (hstill i hc).imp_left fun hframe => (hl' i).mpr (.inr hframe)
  · rw [h.free.freeRegions_eq] at hcovered
    rw [h.pop_covered hframe hcovered]
    exact ⟨rfl, l, h⟩

theorem Tiled.next {event : ArenaEvent} (hp : s.Permits event) :
    (s.next event).arena.length = s.arena.length ∧ ∃ l', Tiled (s.next event) l' := by
  cases event with
  | push layout => exact h.push layout
  | pop frame => exact h.pop hp
  | store address value =>
    obtain ⟨frame, hframe, hin⟩ := hp
    refine ⟨rfl, l, ?_, h.frames, h.apart, h.distinct, h.cover⟩
    refine h.free.of_bytes rfl rfl fun i hi => if_neg fun hsame => ?_
    exact h.apart frame hframe address hin (hsame ▸ hi)

theorem Tiled.run {events : List ArenaEvent} (hp : s.Permitted events) :
    (s.run events).arena.length = s.arena.length ∧ ∃ l', Tiled (s.run events) l' := by
  induction events generalizing s l with
  | nil => exact ⟨rfl, l, h⟩
  | cons event events ih =>
    obtain ⟨hlength, l', h'⟩ := h.next hp.1
    obtain ⟨hlength', hrest⟩ := ih h' hp.2
    exact ⟨hlength'.trans hlength, hrest⟩

end

theorem tiled_new {capacity : Nat} (hsmall : capacity < 2 ^ 32) (hunits : capacity % 8 = 0) :
    ∃ a, new capacity = .ok a ∧ a.length = capacity ∧ ∃ l, Tiled ⟨a, []⟩ l := by
  obtain ⟨a, hnew, hlength, hfree⟩ := new_free hsmall hunits
  refine ⟨a, hnew, hlength, _, hfree, forall_mem_nil _, forall_mem_nil _, .nil, fun i hi => .inl ?_⟩
  have hi : i < capacity := hlength ▸ hi
  rw [if_neg (by omega)]
  exact covered_cons.mpr (.inl ⟨zero_le i, by show i < 0 + capacity; omega⟩)

theorem Tiled.pairwise (h : Tiled s l) : (l ++ s.live).Pairwise Apart := by
  refine pairwise_append.mpr ⟨?_, h.distinct, fun r hr f hf i hi hi' => h.apart f hf i hi' ⟨r, hr, hi⟩⟩
  refine h.free.ordered.imp fun {r t} hbefore i hr ht => ?_
  have : r.base + r.byteLen < t.base := hbefore
  have := hr.2
  have := ht.1
  omega

theorem Tiled.covered_iff (h : Tiled s l) (i : Nat) : Covered (l ++ s.live) i ↔ i < s.arena.length := by
  rw [covered_append]
  constructor
  · rintro (⟨r, hr, hi⟩ | ⟨f, hf, hi⟩)
    · exact lt_of_lt_of_le hi.2 (h.free.placed r hr).bound
    · rcases h.frames f hf with hzero | hplaced
      · have := hi.1
        have := hi.2
        omega
      · exact lt_of_lt_of_le hi.2 hplaced.bound
  · exact h.cover i

/-- **The arena is partitioned in every permitted run.**  For a capacity that is a multiple of eight, after any
pushes and any pops of reservations that are live or share a byte with a region: the regions are in address
order and no two touch, the regions and the live frames have no byte in common and together have every byte of
the arena, a frame that is pushed is clear, and a pop of a reservation that shares a byte with a region is an
error that leaves the arena as it is.  So is a second pop. -/
theorem arena_is_partitioned {capacity : Nat} (hsmall : capacity < 2 ^ 32) (hunits : capacity % 8 = 0) :
    ∃ a, new capacity = .ok a ∧ ∀ events, Permitted ⟨a, []⟩ events →
      let s := run ⟨a, []⟩ events
      s.arena.freeRegions.Pairwise Before ∧ (s.arena.freeRegions ++ s.live).Pairwise Apart ∧
        (∀ i, Covered (s.arena.freeRegions ++ s.live) i ↔ i < capacity) ∧
        (∀ layout frame a', pushInPlace layout s.arena = .ok frame a' → ∀ i, frame.Holds i → a'.bytes i = 0) ∧
        (∀ frame i, frame.Holds i → Covered s.arena.freeRegions i →
          popInPlace frame s.arena = .error (.fault .corruptLifecycle) s.arena) ∧
        ∀ frame ∈ s.live, frame.byteLen ≠ 0 → ∃ a', popInPlace frame s.arena = .ok () a' ∧
          popInPlace frame a' = .error (.fault .corruptLifecycle) a' := by
  obtain ⟨a, hnew, hlength, l, h⟩ := tiled_new hsmall hunits
  refine ⟨a, hnew, fun events hp => ?_⟩
  obtain ⟨hlength', l, h⟩ := h.run hp
  dsimp only
  rw [h.free.freeRegions_eq]
  refine ⟨h.free.ordered, h.pairwise, fun i => ?_, fun layout frame a' hpush i hi => ?_,
    fun frame i hframe hcovered => h.pop_covered hframe hcovered, fun frame hlive hne => ?_⟩
  · rw [h.covered_iff, hlength', hlength]
  · rcases pushInPlace_spec h.free layout with e | ⟨a'', f, l', e, -, -, -, -, -, hclear⟩ | ⟨f, e⟩
    · rw [e] at hpush
      cases hpush
      exact absurd hi.2 (Nat.not_lt_zero i)
    · rw [e] at hpush
      cases hpush
      exact hclear i hi
    · rw [e] at hpush
      cases hpush
  · obtain ⟨a', l', hpop, -, hfree, hl'⟩ := h.pop_live hlive hne
    refine ⟨a', hpop, ?_⟩
    have hfirst : frame.Holds frame.base := ⟨Nat.le_refl _, by omega⟩
    rw [popInPlace_eq, pop_overlap hfree ((hl' _).mpr (.inr hfirst)) hfirst]

/-- Two frames of an arena of 32 bytes; the first is popped, popped once more, and its place is used again. -/
def reuse : List ArenaEvent :=
  [.push ⟨⟨[]⟩, 8, 8⟩, .push ⟨⟨[]⟩, 12, 4⟩, .pop ⟨0, 8⟩, .pop ⟨0, 8⟩, .store 9 255, .push ⟨⟨[]⟩, 1, 1⟩]

theorem arena_is_partitioned_reuse :
    ∃ a, new 32 = .ok a ∧ Permitted ⟨a, []⟩ reuse ∧
      (run ⟨a, []⟩ reuse).arena.freeRegions.Pairwise Before ∧
      (run ⟨a, []⟩ reuse).live = [⟨0, 8⟩, ⟨8, 16⟩] := by
  obtain ⟨a, hnew, h⟩ := @arena_is_partitioned 32 (by decide) (by decide)
  have hsteps : Permitted ⟨a, []⟩ reuse ∧ (run ⟨a, []⟩ reuse).live = [⟨0, 8⟩, ⟨8, 16⟩] := by
    cases hnew
    decide +kernel
  exact ⟨a, hnew, hsteps.1, (h reuse hsteps.1).1, hsteps.2⟩

/-- A frame is popped, a larger one takes its place, and the old reservation is popped once more. -/
def stale : List ArenaEvent := [.push ⟨⟨[]⟩, 8, 8⟩, .pop ⟨0, 8⟩, .push ⟨⟨[]⟩, 16, 8⟩, .pop ⟨0, 8⟩]

/-- **A reservation that is not live and shares no byte with a region.**  Its pop is accepted and leaves a
region inside the larger frame. -/
theorem stale_pop_splits_frame :
    ∃ a, new 32 = .ok a ∧ (∃ a', popInPlace ⟨0, 8⟩ (run ⟨a, []⟩ stale.dropLast).arena = .ok () a') ∧
      (run ⟨a, []⟩ stale).live = [⟨0, 16⟩] ∧ (run ⟨a, []⟩ stale).arena.freeRegions = [⟨0, 8⟩, ⟨16, 16⟩] := by
  refine ⟨_, rfl, ⟨_, rfl⟩, ?_, ?_⟩
  · decide +kernel
  · decide +kernel

/-! ## Runs that leave the same bytes in use -/

theorem Tiled.free_iff (h : Tiled s l) (i : Nat) : Covered l i ↔ i < s.arena.length ∧ ¬ Covered s.live i := by
  have : Covered l i → ¬ Covered s.live i := by
    rintro hl ⟨f, hf, hi⟩
    exact h.apart f hf i hi hl
  rw [← h.covered_iff, covered_append]
  tauto

/-- **The free list keeps no history.**  Whatever two runs push and pop, and in whatever order: when they leave
the same bytes in use they leave the same regions.  So nothing is lost once every frame has been popped. -/
theorem regions_keep_no_history {capacity : Nat} (hsmall : capacity < 2 ^ 32) (hunits : capacity % 8 = 0) :
    ∃ a, new capacity = .ok a ∧ ∀ events events', Permitted ⟨a, []⟩ events → Permitted ⟨a, []⟩ events' →
      (∀ i, Covered (run ⟨a, []⟩ events).live i ↔ Covered (run ⟨a, []⟩ events').live i) →
      (run ⟨a, []⟩ events).arena.freeRegions = (run ⟨a, []⟩ events').arena.freeRegions := by
  obtain ⟨a, hnew, -, l, h⟩ := tiled_new hsmall hunits
  refine ⟨a, hnew, fun events events' hp hp' hlive => ?_⟩
  obtain ⟨hlength', l', h'⟩ := h.run hp'
  obtain ⟨hlength, l, h⟩ := h.run hp
  rw [h.free.freeRegions_eq, h'.free.freeRegions_eq]
  refine eq_of_covered_iff h.free.ordered h'.free.ordered h.free.room h'.free.room fun i => ?_
  rw [h.free_iff, h'.free_iff, hlength, hlength', hlive]

/-- The run above, after which both frames are popped. -/
def drained : List ArenaEvent := reuse ++ [.pop ⟨0, 8⟩, .pop ⟨8, 16⟩]

theorem regions_keep_no_history_drained :
    ∃ a, new 32 = .ok a ∧ Permitted ⟨a, []⟩ drained ∧
      (run ⟨a, []⟩ drained).arena.freeRegions = a.freeRegions := by
  obtain ⟨a, hnew, h⟩ := @regions_keep_no_history 32 (by decide) (by decide)
  have hsteps : Permitted ⟨a, []⟩ drained ∧ (run ⟨a, []⟩ drained).live = [] := by
    cases hnew
    decide +kernel
  refine ⟨a, hnew, hsteps.1, h drained [] hsteps.1 trivial fun i => ?_⟩
  rw [hsteps.2]
  rfl

end ArenaRun

end Compukter.Image
