/-
What holds of the handle table in every interleaving.

`Slots.Sound` is about the table alone: no cell stands in two slots, and the generations are those of handles.
`Placed` ties a caller to the table: a caller that has a value's lock came by a handle that still leads to the value,
since the slot is emptied only by who has that lock.  `Kept` ties a cell to the callers: its lock is held by a caller
that knows, and its value is in the cell, with one caller, or gone.

A retired handle is stale because the slot's generation has grown past the handle's (`Past`).  That is where the
run has to be restricted: the generation of a slot may not wrap around.
-/
import Compukter.Ffi.HandleTable

open Function

namespace Compukter.Ffi

open Fallible List
open World (initial)

variable {T : Type}

/-! ## The table -/

variable {slots : List Slot}

theorem resolve_eq_ok {handle : Nat} {cell : CellId} : resolve slots handle = .ok cell ↔
      ∃ index generation, decodeHandle handle = .ok (index, generation) ∧
        slots[index]? = some ⟨generation, some cell⟩ := by
  rw [resolve, bind_eq_ok]
  constructor
  · rintro ⟨⟨index, generation⟩, hdecode, h⟩
    obtain ⟨_, hslot, h⟩ := bind_eq_ok.mp h
    obtain ⟨_, hgeneration, hvalue⟩ := bind_eq_ok.mp h
    refine ⟨index, generation, hdecode, ?_⟩
    rw [demandSome_eq_ok.mp hslot, ← eq_of_beq (demand_eq_ok.mp hgeneration), ← demandSome_eq_ok.mp hvalue]
  · rintro ⟨index, generation, hdecode, hslot⟩
    refine ⟨_, hdecode, ?_⟩
    simp [hslot, demandSome, demand]

theorem vacate_of_resolve {handle : Nat} {cell : CellId} (h : resolve slots handle = .ok cell) :
    ∃ index generation, decodeHandle handle = .ok (index, generation) ∧ slots[index]? = some ⟨generation, some cell⟩ ∧
      vacate slots handle cell = .ok (slots.set index ⟨nextGeneration generation, none⟩) := by
  obtain ⟨index, generation, hdecode, hslot⟩ := resolve_eq_ok.mp h
  exact ⟨index, generation, hdecode, hslot, by simp [vacate, hdecode, hslot, demandSome, demand]⟩

theorem decode_encode {index generation handle : Nat} (hpos : 0 < generation) (hlt : generation < 2 ^ 32)
    (h : encodeHandle index generation = .ok handle) : decodeHandle handle = .ok (index, generation) := by
  rw [encodeHandle] at h
  split at h
  · next hindex =>
    cases h
    have hslot : (generation * 2 ^ 32 + (index + 1)) % 2 ^ 32 = index + 1 := by omega
    have hgeneration : (generation * 2 ^ 32 + (index + 1)) / 2 ^ 32 % 2 ^ 32 = generation := by omega
    simp only [decodeHandle, hslot, hgeneration]
    rw [if_neg (by omega)]
    rfl
  · cases h

open Nat

theorem nextGeneration_eq {generation : Nat} (h : generation + 1 < 2 ^ 32) :
    nextGeneration generation = generation + 1 := by
  simp only [nextGeneration, mod_eq_of_lt h]
  rw [if_neg (succ_ne_zero generation)]

namespace Slots

/-- The slots of a table that has handed out cells below `count`. -/
structure Sound (slots : List Slot) (count : Nat) : Prop where
  generation (slot : Slot) (h : slot ∈ slots) : 0 < slot.generation ∧ slot.generation < 2 ^ 32
  stored (slot : Slot) (h : slot ∈ slots) (cell : CellId) (hcell : slot.value = some cell) : cell < count
  apart (i j : Nat) (s s' : Slot) (cell : CellId) (hi : slots[i]? = some s) (hj : slots[j]? = some s')
    (hs : s.value = some cell) (hs' : s'.value = some cell) : i = j
  length_lt : slots.length < 2 ^ 32

/-- The slot of the handle has moved on to a later generation. -/
def Past (slots : List Slot) (handle : Nat) : Prop :=
  ∃ index generation slot, decodeHandle handle = .ok (index, generation) ∧ slots[index]? = some slot ∧
    generation < slot.generation

variable {slots : List Slot}

theorem Past.not_resolve {handle : Nat} (h : Past slots handle) (cell : CellId) : resolve slots handle ≠ .ok cell := by
  intro hresolve
  obtain ⟨_, _, _, hdecode, hslot, hlt⟩ := h
  obtain ⟨_, _, hdecode', hslot'⟩ := resolve_eq_ok.mp hresolve
  cases hdecode.symm.trans hdecode'
  cases hslot.symm.trans hslot'
  exact lt_irrefl _ hlt

/-- What a change of one slot does.  The slot was empty, or it is emptied. -/
structure Changes (slots slots' : List Slot) (cell : CellId) : Prop where
  resolves (handle : Nat) (other : CellId) (hne : other ≠ cell) (h : resolve slots handle = .ok other) :
    resolve slots' handle = .ok other
  past (handle : Nat) (h : Past slots handle) : Past slots' handle

section Write

variable {slots slots' : List Slot} {count index : Nat} {slot : Slot}
  (hslots : ∀ i, slots'[i]? = if i = index then some slot else slots[i]?)
include hslots

theorem Changes.write {cell : CellId} (hold : ∀ old, slots[index]? = some old →
      old.generation ≤ slot.generation ∧ ∀ c, old.value = some c → c = cell) : Changes slots slots' cell := by
  refine ⟨fun handle other hne h => ?_, fun handle h => ?_⟩
  · obtain ⟨i, g, hdecode, hslot⟩ := resolve_eq_ok.mp h
    refine resolve_eq_ok.mpr ⟨i, g, hdecode, ?_⟩
    rw [hslots, if_neg, hslot]
    rintro rfl
    exact hne ((hold _ hslot).2 other rfl)
  · obtain ⟨i, g, old, hdecode, hslot, hlt⟩ := h
    by_cases hi : i = index
    · subst hi
      exact ⟨i, g, slot, hdecode, by rw [hslots, if_pos rfl], Nat.lt_of_lt_of_le hlt (hold _ hslot).1⟩
    · exact ⟨i, g, old, hdecode, by rw [hslots, if_neg hi, hslot], hlt⟩

/-- What is written is empty or a cell that stands nowhere else. -/
theorem Sound.write (h : Sound slots count) {count' : Nat} (hcount : count ≤ count')
    (hgeneration : 0 < slot.generation ∧ slot.generation < 2 ^ 32) (hindex : index + 1 < 2 ^ 32)
    (hfresh : ∀ c, slot.value = some c → count ≤ c ∧ c < count') : Sound slots' count' := by
  have hcases : ∀ i s, slots'[i]? = some s → i = index ∧ s = slot ∨ slots[i]? = some s := by
    intro i s hs
    rw [hslots] at hs
    split at hs
    · next hi =>
      cases hs
      exact .inl ⟨hi, rfl⟩
    · exact .inr hs
  have hbelow : ∀ (i : Nat) (s : Slot) (c : CellId), slots[i]? = some s → s.value = some c → c < count :=
    fun i s c hs => h.stored s (mem_of_getElem? hs) c
  refine ⟨fun s hmem => ?_, fun s hmem c hc => ?_, fun i j s s' c hi hj hs hs' => ?_, ?_⟩
  · obtain ⟨i, hi⟩ := mem_iff_getElem?.mp hmem
    rcases hcases i s hi with ⟨-, rfl⟩ | hs
    · exact hgeneration
    · exact h.generation s (mem_of_getElem? hs)
  · obtain ⟨i, hi⟩ := mem_iff_getElem?.mp hmem
    rcases hcases i s hi with ⟨-, rfl⟩ | hs
    · exact (hfresh c hc).2
    · exact Nat.lt_of_lt_of_le (hbelow i s c hs hc) hcount
  · rcases hcases i s hi with ⟨rfl, rfl⟩ | hi <;> rcases hcases j s' hj with ⟨rfl, rfl⟩ | hj
    · rfl
    · exact absurd (hbelow j s' c hj hs') (Nat.not_lt.mpr (hfresh c hs).1)
    · exact absurd (hbelow i s c hi hs) (Nat.not_lt.mpr (hfresh c hs').1)
    · exact h.apart i j s s' c hi hj hs hs'
  · have hend : slots'[2 ^ 32 - 1]? = none := by
      rw [hslots, if_neg (by omega)]
      exact getElem?_eq_none (le_sub_one_of_lt h.length_lt)
    have := getElem?_eq_none_iff.mp hend
    omega

end Write

section Vacate

variable {slots : List Slot} {count index generation : Nat} {cell : CellId}
  (hs : slots[index]? = some ⟨generation, some cell⟩) (hlt : generation + 1 < 2 ^ 32)
include hs hlt

theorem vacate_slots (i : Nat) : (slots.set index ⟨nextGeneration generation, none⟩)[i]? =
      if i = index then some ⟨generation + 1, none⟩ else slots[i]? := by
  rw [getElem?_set, if_pos (List.getElem?_eq_some_iff.mp hs).1, nextGeneration_eq hlt]
  simp only [eq_comm]

theorem vacate_changes : Changes slots (slots.set index ⟨nextGeneration generation, none⟩) cell := by
  refine .write (vacate_slots hs hlt) fun old hold => ?_
  cases hs.symm.trans hold
  exact ⟨le_succ generation, fun c hc => (Option.some.inj hc).symm⟩

theorem vacate_past {handle : Nat} (hdecode : decodeHandle handle = .ok (index, generation)) :
    Past (slots.set index ⟨nextGeneration generation, none⟩) handle :=
  ⟨index, generation, _, hdecode, by rw [vacate_slots hs hlt, if_pos rfl], lt_succ_self generation⟩

theorem Sound.vacate (h : Sound slots count) : Sound (slots.set index ⟨nextGeneration generation, none⟩) count :=
  h.write (vacate_slots hs hlt) le_rfl ⟨succ_pos generation, hlt⟩
    (Nat.lt_of_le_of_lt (List.getElem?_eq_some_iff.mp hs).1 h.length_lt) nofun

end Vacate

/-! ### Inserting -/

/-- The slot that the next value gets. -/
def nextIndex (slots : List Slot) : Nat := (slots.findIdx? (·.value.isNone)).getD slots.length

/-- A new cell is in the slot `index`, which was empty or is new; the other slots are as before. -/
theorem insert_spec {count : Nat} (h : Sound slots count) (cell : CellId) :
    ∃ generation, 0 < generation ∧ generation < 2 ^ 32 ∧
      (insert slots cell).1 = encodeHandle (nextIndex slots) generation ∧
      (∀ i, (insert slots cell).2[i]? = if i = nextIndex slots then some ⟨generation, some cell⟩ else slots[i]?) ∧
      (∀ slot, slots[nextIndex slots]? = some slot → slot = ⟨generation, none⟩) := by
  rw [insert, nextIndex]
  cases hfind : slots.findIdx? (·.value.isNone) with
  | some index =>
    obtain ⟨hindex, hfree, -⟩ := findIdx?_eq_some_iff_getElem.mp hfind
    have hslot : slots[index]? = some slots[index] := getElem?_eq_getElem hindex
    have hbound := h.generation slots[index] (getElem_mem hindex)
    refine ⟨slots[index].generation, hbound.1, hbound.2, by simp [hslot], fun i => ?_, fun slot hs => ?_⟩
    · simp only [Option.getD_some, getElem?_modify]
      by_cases hi : i = index
      · subst hi
        simp [hslot]
      · rw [if_neg hi]
        simp [Ne.symm hi]
    · rw [Option.getD_some, hslot] at hs
      cases hs
      have hnone := Option.isNone_iff_eq_none.mp hfree
      cases hslot : slots[index]
      rw [hslot] at hnone
      rw [← hnone]
  | none =>
    refine ⟨1, by decide, by decide, rfl, fun i => ?_, fun slot hs => ?_⟩
    · simp only [Option.getD_none]
      by_cases hi : i = slots.length
      · subst hi
        simp
      · rw [if_neg hi]
        rcases lt_or_gt_of_ne hi with hlt | hgt
        · exact getElem?_append_left hlt
        · rw [getElem?_eq_none (by simp; omega), getElem?_eq_none (le_of_lt hgt)]
    · simp at hs

section Insert

variable {slots : List Slot} {count : Nat} {cell : CellId}

theorem insert_changes (h : Sound slots count) : Changes slots (insert slots cell).2 cell := by
  obtain ⟨_, -, -, -, hslots, hold⟩ := insert_spec h cell
  refine .write hslots fun old hslot => ?_
  cases hold old hslot
  exact ⟨le_rfl, nofun⟩

theorem Sound.insert (h : Sound slots count) (hroom : nextIndex slots + 1 < 2 ^ 32) :
    Sound (insert slots count).2 (count + 1) := by
  obtain ⟨_, hpos, hlt, -, hslots, -⟩ := insert_spec h count
  refine h.write hslots (le_succ count) ⟨hpos, hlt⟩ hroom fun c hc => ?_
  cases hc
  exact ⟨le_rfl, lt_succ_self count⟩

theorem insert_resolves (h : Sound slots count) (hroom : nextIndex slots + 1 < 2 ^ 32) :
    ∃ handle, (insert slots cell).1 = .ok handle ∧ resolve (insert slots cell).2 handle = .ok cell := by
  obtain ⟨generation, hpos, hlt, hhandle, hslots, -⟩ := insert_spec h cell
  have hencode : encodeHandle (nextIndex slots) generation = .ok (generation * 2 ^ 32 + (nextIndex slots + 1)) :=
    if_pos hroom
  refine ⟨_, hhandle.trans hencode, resolve_eq_ok.mpr ⟨_, _, decode_encode hpos hlt hencode, ?_⟩⟩
  rw [hslots, if_pos rfl]

end Insert

end Slots

/-! ## The callers and the cells -/

/-- What a caller relies on. -/
def Placed (w : World T) (t : Caller) : Place T → Prop
  | .idle _ => True
  | .resolved _ handle cell => cell < w.cells.length ∧ (resolve w.slots handle = .ok cell ∨ cell ∈ w.gone)
  | .acting handle cell | .closing handle cell =>
    resolve w.slots handle = .ok cell ∧ ∃ value, w.cells[cell]? = some ⟨some value, some t, false⟩
  | .consuming handle cell _ => resolve w.slots handle = .ok cell ∧ w.cells[cell]? = some ⟨none, some t, false⟩
  | .consumed handle cell =>
    resolve w.slots handle = .ok cell ∧ w.cells[cell]? = some ⟨none, some t, false⟩ ∧ cell ∈ w.gone

/-- What a cell relies on: who has its lock knows, its value is somewhere or gone, and it can be reached. -/
structure Kept (w : World T) (cell : CellId) (content : Cell T) : Prop where
  holder (t : Caller) (h : content.holder = some t) : ∃ handle, (w.callers t).holds = some (handle, cell)
  gone : cell ∈ w.gone ↔ content.value = none ∧ ∀ t value, (w.callers t).owned ≠ some (cell, value)
  reachable (h : cell ∉ w.gone) : ∃ handle, resolve w.slots handle = .ok cell

structure Inv (w : World T) : Prop where
  slots : Slots.Sound w.slots w.cells.length
  placed (t : Caller) : Placed w t (w.callers t)
  kept (cell : CellId) (content : Cell T) (h : w.cells[cell]? = some content) : Kept w cell content
  gone_lt (cell : CellId) (h : cell ∈ w.gone) : cell < w.cells.length
  nodup : w.gone.Nodup
  retired (p : Nat × CellId) (h : p ∈ w.retired) : Slots.Past w.slots p.1 ∧ p.2 ∈ w.gone

theorem inv_initial : Inv (initial : World T) where
  slots := ⟨nofun, nofun, nofun, Nat.two_pow_pos 32⟩
  placed _ := trivial
  kept _ _ h := nomatch h
  gone_lt _ h := nomatch h
  nodup := nodup_nil
  retired _ h := nomatch h

variable {place : Place T}

/-- What is taken out of a cell is with the holder of its lock. -/
theorem Place.holds_of_owned {cell : CellId} {value : T} (h : place.owned = some (cell, value)) :
    ∃ handle, place.holds = some (handle, cell) := by
  cases place with
  | consuming handle =>
    cases h
    exact ⟨handle, rfl⟩
  | _ => cases h

variable {w : World T}

/-- The holder's side of a lock. -/
theorem Placed.held {t : Caller} {handle : Nat} {cell : CellId}
    (h : Placed w t place) (hholds : place.holds = some (handle, cell)) :
    resolve w.slots handle = .ok cell ∧ ∃ value, w.cells[cell]? = some ⟨value, some t, false⟩ := by
  cases place with
  | idle | resolved => cases hholds
  | acting | closing =>
    cases hholds
    obtain ⟨hresolve, value, hcell⟩ := h
    exact ⟨hresolve, some value, hcell⟩
  | consuming =>
    cases hholds
    exact ⟨h.1, none, h.2⟩
  | consumed =>
    cases hholds
    exact ⟨h.1, none, h.2.1⟩

/-- A caller can go on when the cell whose lock it holds is as it was. -/
theorem Placed.mono {w' : World T} {t : Caller} (h : Placed w t place) (hlength : w.cells.length ≤ w'.cells.length)
    (hgone : ∀ c ∈ w.gone, c ∈ w'.gone)
    (hheld : ∀ handle c, place.holds = some (handle, c) → w'.cells[c]? = w.cells[c]? ∧
      (resolve w.slots handle = .ok c → resolve w'.slots handle = .ok c))
    (hfound : ∀ handle c, c < w.cells.length → resolve w.slots handle = .ok c →
      resolve w'.slots handle = .ok c ∨ c ∈ w'.gone) : Placed w' t place := by
  cases place with
  | idle => trivial
  | resolved _ handle c =>
    exact ⟨Nat.lt_of_lt_of_le h.1 hlength, h.2.elim (hfound handle c h.1) fun hc => .inr (hgone c hc)⟩
  | acting handle c | closing handle c | consuming handle c =>
    obtain ⟨hcell, hresolve⟩ := hheld handle c rfl
    exact ⟨hresolve h.1, by rw [hcell]; exact h.2⟩
  | consumed handle c =>
    obtain ⟨hcell, hresolve⟩ := hheld handle c rfl
    exact ⟨hresolve h.1, hcell.trans h.2.1, hgone c h.2.2⟩

theorem Inv.placed_of (h : Inv w) {t : Caller} (hplace : w.callers t = place) : Placed w t place := hplace ▸ h.placed t

/-- **One at a time.**  Two callers that hold the lock of one cell are one. -/
theorem Inv.exclusive (h : Inv w) {t t' : Caller} {handle handle' : Nat} {cell : CellId}
    (ht : (w.callers t).holds = some (handle, cell)) (ht' : (w.callers t').holds = some (handle', cell)) : t = t' := by
  obtain ⟨-, _, hcell⟩ := (h.placed t).held ht
  obtain ⟨-, _, hcell'⟩ := (h.placed t').held ht'
  cases hcell.symm.trans hcell'
  rfl

/-- A caller that holds no lock goes on without one. -/
theorem Inv.goto (h : Inv w) {t : Caller} {place : Place T} (hfree : (w.callers t).holds = none)
    (hholds : place.holds = none) (hplaced : Placed w t place) : Inv (w.goto t place) := by
  have howned : place.owned = none := by
    cases place <;> first | rfl | cases hholds
  have howned' : (w.callers t).owned = none := by
    cases hp : w.callers t <;> first | rfl | (rw [hp] at hfree; cases hfree)
  refine ⟨h.slots, fun t' => ?_, fun cell content hcell => ?_, h.gone_lt, h.nodup, h.retired⟩
  · show Placed w t' (update w.callers t place t')
    by_cases ht : t' = t
    · subst ht
      rw [update_self]
      exact hplaced
    · rw [update_of_ne ht]
      exact h.placed t'
  · obtain ⟨hholder, hgone, hreach⟩ := h.kept cell content hcell
    have hsame : ∀ t' value, ((w.goto t place).callers t').owned ≠ some (cell, value) ↔
        (w.callers t').owned ≠ some (cell, value) := by
      intro t' value
      show (update w.callers t place t').owned ≠ _ ↔ _
      by_cases ht : t' = t
      · subst ht
        rw [update_self, howned, howned']
      · rw [update_of_ne ht]
    refine ⟨fun t' ht' => ?_, ?_, hreach⟩
    · obtain ⟨handle, hhandle⟩ := hholder t' ht'
      refine ⟨handle, ?_⟩
      show (update w.callers t place t').holds = _
      rw [update_of_ne, hhandle]
      rintro rfl
      rw [hfree] at hhandle
      cases hhandle
    · simp only [hsame]
      exact hgone

/-- A step of the caller `t` at one cell, with what it has to show about this caller and this cell. -/
structure Step (w w' : World T) (t : Caller) (cell : CellId) (content : Cell T) (place : Place T) : Prop where
  cells : w'.cells = w.cells.set cell content
  callers : w'.callers = update w.callers t place
  after : ∀ handle c, place.holds = some (handle, c) → c = cell
  slots : Slots.Sound w'.slots w.cells.length
  changes : Slots.Changes w.slots w'.slots cell
  resolves : ∀ handle, resolve w.slots handle = .ok cell → resolve w'.slots handle = .ok cell ∨ cell ∈ w'.gone
  gone : w'.gone = w.gone ∨ cell ∉ w.gone ∧ w'.gone = cell :: w.gone
  retired : ∀ p ∈ w'.retired, p ∈ w.retired ∨ Slots.Past w'.slots p.1 ∧ p.2 ∈ w'.gone
  placed : Placed w' t place
  kept : Kept w' cell content

/-- No one else holds the lock of the cell, before or after. -/
theorem Inv.change {w w' : World T} (h : Inv w) {t : Caller} {cell : CellId} {content content' : Cell T}
    {place : Place T} (hcell : w.cells[cell]? = some content)
    (hother : ∀ t' ≠ t, ∀ handle, (w.callers t').holds ≠ some (handle, cell))
    (hbefore : ∀ handle c, (w.callers t).holds = some (handle, c) → c = cell)
    (hstep : Step w w' t cell content' place) : Inv w' := by
  obtain ⟨hcells, hcallers, hafter, hslots, hchanges, hresolves, hgone, hretired, hplaced, hkept⟩ := hstep
  have hlt : cell < w.cells.length := (List.getElem?_eq_some_iff.mp hcell).1
  have hmem : ∀ c, c ≠ cell → (c ∈ w'.gone ↔ c ∈ w.gone) := by
    intro c hc
    rcases hgone with heq | ⟨-, heq⟩
    · rw [heq]
    · rw [heq, mem_cons, or_iff_right hc]
  have hmono : ∀ c, c ∈ w.gone → c ∈ w'.gone := by
    intro c hc
    rcases hgone with heq | ⟨-, heq⟩
    · exact heq ▸ hc
    · exact heq ▸ mem_cons_of_mem _ hc
  have hget : ∀ c, c ≠ cell → w'.cells[c]? = w.cells[c]? := by
    intro c hc
    rw [hcells, getElem?_set_ne (Ne.symm hc)]
  have hcaller : ∀ t' ≠ t, w'.callers t' = w.callers t' := by
    intro t' ht'
    rw [hcallers, update_of_ne ht']
  have hself : w'.callers t = place := by rw [hcallers, update_self]
  refine ⟨by rw [hcells, length_set]; exact hslots, fun t' => ?_, fun c content₁ hc => ?_, fun c hc => ?_, ?_,
    fun p hp => ?_⟩
  · by_cases ht : t' = t
    · subst ht
      rw [hself]
      exact hplaced
    · -- the others rely on other cells, or have only looked this one up
      rw [hcaller t' ht]
      refine (h.placed t').mono (by rw [hcells, length_set]) hmono (fun handle c hc => ?_) fun handle c _ hr => ?_
      · have hne : c ≠ cell := fun heq => hother t' ht handle (heq ▸ hc)
        exact ⟨hget c hne, hchanges.resolves handle c hne⟩
      · by_cases hc : c = cell
        · exact hc ▸ hresolves handle (hc ▸ hr)
        · exact .inl (hchanges.resolves handle c hc hr)
  · by_cases hne : c = cell
    · subst hne
      rw [hcells, getElem?_set_self hlt] at hc
      cases hc
      exact hkept
    · rw [hget c hne] at hc
      obtain ⟨hholder, hgone', hreach⟩ := h.kept c content₁ hc
      have howned : ∀ t' value, (w'.callers t').owned ≠ some (c, value) ↔ (w.callers t').owned ≠ some (c, value) := by
        intro t' value
        by_cases ht : t' = t
        · subst ht
          rw [hself]
          refine ⟨fun _ ho => ?_, fun _ ho => ?_⟩
          · obtain ⟨handle, hh⟩ := Place.holds_of_owned ho
            exact hne (hbefore handle c hh)
          · obtain ⟨handle, hh⟩ := Place.holds_of_owned ho
            exact hne (hafter handle c hh)
        · rw [hcaller t' ht]
      refine ⟨fun t' ht' => ?_, ?_, fun hnot => ?_⟩
      · obtain ⟨handle, hh⟩ := hholder t' ht'
        refine ⟨handle, ?_⟩
        rw [hcaller t', hh]
        rintro rfl
        exact hne (hbefore handle c hh)
      · simp only [howned, hmem c hne]
        exact hgone'
      · obtain ⟨handle, hh⟩ := hreach fun hin => hnot (hmono c hin)
        exact ⟨handle, hchanges.resolves handle c hne hh⟩
  · rw [hcells, length_set]
    by_cases hne : c = cell
    · exact hne ▸ hlt
    · exact h.gone_lt c ((hmem c hne).mp hc)
  · rcases hgone with heq | ⟨hnot, heq⟩
    · exact heq ▸ h.nodup
    · exact heq ▸ nodup_cons.mpr ⟨hnot, h.nodup⟩
  · rcases hretired p hp with hold | hnew
    · exact ⟨hchanges.past _ (h.retired p hold).1, hmono _ (h.retired p hold).2⟩
    · exact hnew

/-! ## The steps -/

section Steps

variable {w w' : World T} {t : Caller} {handle : Nat} {cell : CellId}

theorem Slots.Changes.refl (slots : List Slot) (cell : CellId) : Slots.Changes slots slots cell :=
  ⟨fun _ _ _ h => h, fun _ h => h⟩

variable {poisoned : Bool}

theorem kept_value {value : T} (hgone : cell ∉ w.gone) (hresolve : resolve w.slots handle = .ok cell) :
    Kept w cell ⟨some value, none, poisoned⟩ :=
  ⟨nofun, ⟨fun hin => absurd hin hgone, fun h => (nomatch h.1)⟩, fun _ => ⟨handle, hresolve⟩⟩

theorem kept_empty (hgone : cell ∈ w.gone)
    (hfree : ∀ t value, (w.callers t).owned ≠ some (cell, value)) : Kept w cell ⟨none, none, poisoned⟩ :=
  ⟨nofun, ⟨fun _ => ⟨rfl, hfree⟩, fun _ => hgone⟩, fun hnot => absurd hgone hnot⟩

variable (h : Inv w)
include h

/-- After the holder of a lock has gone on without what it had taken out, no one has it. -/
theorem Inv.not_owned (hholds : (w.callers t).holds = some (handle, cell)) {place : Place T}
    (hplace : place.owned = none) (t' : Caller) (value : T) :
    (update w.callers t place t').owned ≠ some (cell, value) := by
  by_cases ht : t' = t
  · subst ht
    rw [update_self, hplace]
    exact Option.some_ne_none _ |>.symm
  · rw [update_of_ne ht]
    intro howned
    obtain ⟨handle', hholds'⟩ := Place.holds_of_owned howned
    exact ht (h.exclusive hholds' hholds)

variable {content : Cell T}

/-- A step of a caller at the cell whose lock it holds. -/
theorem Inv.step_held {place : Place T}
    (hholds : (w.callers t).holds = some (handle, cell)) (hstep : Step w w' t cell content place) : Inv w' := by
  obtain ⟨-, _, hcell⟩ := (h.placed t).held hholds
  refine h.change hcell (fun t' ht handle' hholds' => ?_) (fun handle' c hc => ?_) hstep
  · exact ht (h.exclusive hholds' hholds)
  · rw [hholds] at hc
    cases hc
    rfl

theorem Inv.not_gone_of_value {value : T} (hcell : w.cells[cell]? = some content)
    (hvalue : content.value = some value) : cell ∉ w.gone := by
  intro hgone
  have := ((h.kept cell content hcell).gone.mp hgone).1
  rw [hvalue] at this
  cases this

theorem Inv.not_gone_of_owned {owned : T} (hplace : w.callers t = .consuming handle cell owned) : cell ∉ w.gone := by
  intro hgone
  have hplaced := h.placed_of hplace
  refine ((h.kept cell _ hplaced.2).gone.mp hgone).2 t owned ?_
  rw [hplace]
  rfl

/-- The lock is given up with a value in the cell that was there or had been taken out. -/
theorem Inv.putBack (hholds : (w.callers t).holds = some (handle, cell)) (hgone : cell ∉ w.gone)
    (value : T) (poisoned : Bool) (last : Option (Except HandleError Reply)) :
    Inv ((w.setCell cell ⟨some value, none, poisoned⟩).goto t (.idle last)) :=
  h.step_held hholds ⟨rfl, rfl, nofun, h.slots, .refl _ _, fun _ hr => .inl hr, .inl rfl,
    fun _ hp => .inl hp, trivial, kept_value hgone ((h.placed t).held hholds).1⟩

theorem Inv.used (hplace : w.callers t = .acting handle cell) (value : T) : Inv (w.used t cell value) := by
  obtain ⟨-, old, hcell⟩ := h.placed_of hplace
  exact h.putBack (by rw [hplace]; rfl) (h.not_gone_of_value hcell rfl) value false _

theorem Inv.usePanics (hplace : w.callers t = .acting handle cell) (value : T) : Inv (w.usePanics t cell value) := by
  obtain ⟨-, old, hcell⟩ := h.placed_of hplace
  exact h.putBack (by rw [hplace]; rfl) (h.not_gone_of_value hcell rfl) value true _

section

variable {owned : T} (hplace : w.callers t = .consuming handle cell owned)
include hplace

theorem Inv.giveBack (restored : T) : Inv (w.giveBack t cell restored) :=
  h.putBack (by rw [hplace]; rfl) (h.not_gone_of_owned hplace) restored false _

theorem Inv.useUp : Inv (w.useUp t handle cell) := by
  have hholds : (w.callers t).holds = some (handle, cell) := congrArg Place.holds hplace
  have hplaced := h.placed_of hplace
  have hsame : w.cells = w.cells.set cell ⟨none, some t, false⟩ := by
    obtain ⟨hlt, hget⟩ := List.getElem?_eq_some_iff.mp hplaced.2
    rw [← hget, set_getElem_self]
  refine h.step_held hholds ⟨hsame, rfl, fun _ c hc => ?_, h.slots, .refl _ _, fun _ hr => .inl hr,
    .inr ⟨h.not_gone_of_owned hplace, rfl⟩, fun _ hp => .inl hp, ⟨hplaced.1, hplaced.2, mem_cons_self⟩, ?_⟩
  · cases hc
    rfl
  · refine ⟨fun t' ht' => ?_, ⟨fun _ => ⟨rfl, h.not_owned hholds rfl⟩, fun _ => mem_cons_self⟩,
      fun hnot => absurd mem_cons_self hnot⟩
    cases ht'
    refine ⟨handle, ?_⟩
    show (update w.callers t _ t).holds = _
    rw [update_self]
    rfl

theorem Inv.consumePanics : Inv (w.consumePanics t cell) := by
  have hholds : (w.callers t).holds = some (handle, cell) := congrArg Place.holds hplace
  exact h.step_held hholds ⟨rfl, rfl, nofun, h.slots, .refl _ _, fun _ hr => .inl hr,
    .inr ⟨h.not_gone_of_owned hplace, rfl⟩, fun _ hp => .inl hp, trivial,
    kept_empty mem_cons_self (h.not_owned hholds rfl)⟩

end

section

variable (hlt : ∀ index generation, decodeHandle handle = .ok (index, generation) → generation + 1 < 2 ^ 32)
include hlt

/-- The slot is emptied by the holder of the lock, who leaves an empty cell: the handle is stale from then on. -/
theorem Inv.vacate (hholds : (w.callers t).holds = some (handle, cell)) {gone : List CellId}
    (hgone : gone = w.gone ∧ cell ∈ w.gone ∨ cell ∉ w.gone ∧ gone = cell :: w.gone) (last : Option (Except HandleError Reply)) :
    ∃ slots, Ffi.vacate w.slots handle cell = .ok slots ∧
      Inv ((({ w with slots, gone, retired := (handle, cell) :: w.retired } : World T).setCell cell
        ⟨none, none, false⟩).goto t (.idle last)) := by
  obtain ⟨index, generation, hdecode, hslot, hvacate⟩ := vacate_of_resolve ((h.placed t).held hholds).1
  have hnext := hlt index generation hdecode
  have hmem : cell ∈ gone := by
    rcases hgone with ⟨rfl, hmem⟩ | ⟨-, rfl⟩
    · exact hmem
    · exact mem_cons_self
  refine ⟨_, hvacate, h.step_held hholds ⟨rfl, rfl, nofun, h.slots.vacate hslot hnext,
    Slots.vacate_changes hslot hnext, fun _ _ => .inr hmem, hgone.imp And.left id, fun p hp => ?_, trivial,
    kept_empty hmem (h.not_owned hholds rfl)⟩⟩
  rcases mem_cons.mp hp with rfl | hp
  · exact .inr ⟨Slots.vacate_past hslot hnext hdecode, hmem⟩
  · exact .inl hp

theorem Inv.finishClose (hplace : w.callers t = .closing handle cell) : Inv (w.finishClose t handle cell) := by
  obtain ⟨-, _, hcell⟩ := h.placed_of hplace
  obtain ⟨_, hvacate, hinv⟩ := h.vacate hlt (by rw [hplace]; rfl)
    (.inr ⟨h.not_gone_of_value hcell rfl, rfl⟩) (some (.ok .closed))
  rw [World.finishClose, hvacate]
  exact hinv

theorem Inv.finishConsume (hplace : w.callers t = .consumed handle cell) : Inv (w.finishConsume t handle cell) := by
  have hplaced := h.placed_of hplace
  obtain ⟨_, hvacate, hinv⟩ := h.vacate hlt (by rw [hplace]; rfl) (.inl ⟨rfl, hplaced.2.2⟩) (some (.ok .consumed))
  rw [World.finishConsume, hvacate]
  exact hinv

end

variable {last : Option (Except HandleError Reply)}

theorem Inv.start (hplace : w.callers t = .idle last) (call : Call) (handle : Nat) : Inv (w.start t call handle) := by
  have hfree : (w.callers t).holds = none := congrArg Place.holds hplace
  rw [World.start]
  split
  · next cell hresolve =>
    obtain ⟨_, _, hdecode, hslot⟩ := resolve_eq_ok.mp hresolve
    exact h.goto hfree rfl ⟨h.slots.stored _ (mem_of_getElem? hslot) cell rfl, .inl hresolve⟩
  · exact h.goto hfree rfl trivial

/-- A caller that holds no lock gets the lock of a cell with a value.  The value stays or is taken out. -/
theorem Inv.acquire (hfree : (w.callers t).holds = none) {value : T}
    (hcell : w.cells[cell]? = some ⟨some value, none, false⟩) (hresolve : resolve w.slots handle = .ok cell)
    {content : Cell T} {place : Place T} (hholder : content.holder = some t)
    (hholds : place.holds = some (handle, cell)) (htaken : content.value = none → place.owned = some (cell, value))
    (hplaced : Placed ((w.setCell cell content).goto t place) t place) :
    Inv ((w.setCell cell content).goto t place) := by
  have hnot : cell ∉ w.gone := h.not_gone_of_value hcell rfl
  have hself : ((w.setCell cell content).goto t place).callers t = place := update_self ..
  refine h.change hcell (fun t' _ handle' hholds' => ?_) (fun handle' c hc => ?_) ⟨rfl, rfl, fun handle' c hc => ?_,
    h.slots, .refl _ _, fun _ hr => .inl hr, .inl rfl, fun _ hp => .inl hp, hplaced,
    ⟨fun t' ht' => ?_, ⟨fun hin => absurd hin hnot, fun hnone => ?_⟩, fun _ => ⟨handle, hresolve⟩⟩⟩
  · obtain ⟨-, _, hcell'⟩ := (h.placed t').held hholds'
    cases hcell.symm.trans hcell'
  · rw [hfree] at hc
    cases hc
  · rw [hholds] at hc
    cases hc
    rfl
  · cases hholder.symm.trans ht'
    exact ⟨handle, by rw [hself, hholds]⟩
  · exact absurd (by rw [hself]; exact htaken hnone.1) (hnone.2 t value)

/-- Who gets the lock of a cell with a value came by a handle that leads to it. -/
theorem Inv.tryLock {call : Call} (hplace : w.callers t = .resolved call handle cell) :
    Inv (w.tryLock t call handle cell) := by
  have hfree : (w.callers t).holds = none := congrArg Place.holds hplace
  obtain ⟨hlt, hleads⟩ := h.placed_of hplace
  obtain ⟨⟨value, holder, poisoned⟩, hcell⟩ : ∃ content, w.cells[cell]? = some content :=
    ⟨_, getElem?_eq_getElem hlt⟩
  have hset : ∀ content : Cell T, (w.cells.set cell content)[cell]? = some content := fun content =>
    getElem?_set_self hlt
  rw [World.tryLock, hcell]
  cases holder with
  | some => exact h.goto hfree rfl trivial
  | none =>
    cases poisoned with
    | true => exact h.goto hfree rfl trivial
    | false =>
      cases value with
      | none => exact h.goto hfree rfl trivial
      | some value =>
        have hresolve : resolve w.slots handle = .ok cell := hleads.resolve_right (h.not_gone_of_value hcell rfl)
        cases call with
        | use | close => exact h.acquire hfree hcell hresolve rfl rfl nofun ⟨hresolve, value, hset _⟩
        | consumeIf => exact h.acquire hfree hcell hresolve rfl rfl (fun _ => rfl) ⟨hresolve, hset _⟩

/-- A new cell changes nothing for the callers and the other cells. -/
theorem Inv.insert (hplace : w.callers t = .idle last)
    (hroom : Slots.nextIndex w.slots + 1 < 2 ^ 32) (value : T) : Inv (w.insert t value) := by
  have hchanges := @Slots.insert_changes w.slots _ w.cells.length h.slots
  have hinserted : Inv ({ w with
      slots := (Ffi.insert w.slots w.cells.length).2
      cells := w.cells ++ [⟨some value, none, false⟩] } : World T) := by
    refine ⟨?_, fun t' => ?_, fun c content hc => ?_, fun c hc => ?_, h.nodup, fun p hp => ?_⟩
    · rw [length_append]
      exact h.slots.insert hroom
    · refine (h.placed t').mono (by simp) (fun _ hc => hc) (fun handle c hc => ?_) fun handle c hlt hr =>
        .inl (hchanges.resolves handle c (Nat.ne_of_lt hlt) hr)
      obtain ⟨-, v, hcell⟩ := (h.placed t').held hc
      have hlt := (List.getElem?_eq_some_iff.mp hcell).1
      exact ⟨getElem?_append_left hlt, hchanges.resolves handle c (Nat.ne_of_lt hlt)⟩
    · rcases lt_or_ge c w.cells.length with hlt | hge
      · rw [getElem?_append_left hlt] at hc
        obtain ⟨hholder, hgone, hreach⟩ := h.kept c content hc
        refine ⟨hholder, hgone, fun hnot => ?_⟩
        obtain ⟨handle, hh⟩ := hreach hnot
        exact ⟨handle, hchanges.resolves handle c (Nat.ne_of_lt hlt) hh⟩
      · have hlast : c = w.cells.length := by
          have := (List.getElem?_eq_some_iff.mp hc).1
          rw [length_append, length_singleton] at this
          exact le_antisymm (le_of_lt_succ this) hge
        subst hlast
        rw [getElem?_concat_length] at hc
        cases hc
        obtain ⟨handle, -, hresolve⟩ := @Slots.insert_resolves w.slots _ w.cells.length h.slots hroom
        exact kept_value (fun hin => lt_irrefl _ (h.gone_lt _ hin)) hresolve
    · rw [length_append]
      exact Nat.lt_add_right _ (h.gone_lt c hc)
    · exact ⟨hchanges.past _ (h.retired p hp).1, (h.retired p hp).2⟩
  refine hinserted.goto ?_ rfl trivial
  show (w.callers t).holds = none
  rw [hplace]
  rfl

end Steps

/-! ## Runs -/

/-- The event neither makes a generation wrap around nor needs a slot that no handle can name. -/
def Permitted (w : World T) : Event T → Prop
  | .insert _ _ => Slots.nextIndex w.slots + 1 < 2 ^ 32
  | .finish t => ∀ handle cell index generation, (w.callers t).holds = some (handle, cell) →
      decodeHandle handle = .ok (index, generation) → generation + 1 < 2 ^ 32
  | _ => True

/-- Every event is permitted where it happens. -/
def Permits : World T → List (Event T) → Prop
  | _, [] => True
  | w, event :: events => Permitted w event ∧ Permits (step w event) events

theorem Inv.step (h : Inv w) {event : Event T} (hp : Permitted w event) : Inv (step w event) := by
  -- an event of a caller that is in another place changes nothing
  cases event <;> rw [Ffi.step] <;> split <;> try exact h
  · next value _ _ hplace => exact h.insert hplace hp value
  · next call handle _ _ hplace => exact h.start hplace call handle
  · next hplace => exact h.tryLock hplace
  · next value _ _ _ hplace => exact h.used hplace value
  · next value _ _ _ hplace => exact h.usePanics hplace value
  · next restored _ _ _ _ hplace => exact h.giveBack hplace restored
  · next hplace => exact h.useUp hplace
  · next hplace => exact h.consumePanics hplace
  · next handle cell hplace => exact h.finishClose (fun i g => hp handle cell i g (by rw [hplace]; rfl)) hplace
  · next handle cell hplace => exact h.finishConsume (fun i g => hp handle cell i g (by rw [hplace]; rfl)) hplace

theorem run_append (w : World T) (events more : List (Event T)) :
    run w (events ++ more) = run (run w events) more := foldl_append ..

theorem Inv.run (h : Inv w) {events : List (Event T)} (hp : Permits w events) : Inv (run w events) := by
  induction events generalizing w with
  | nil => exact h
  | cons _ _ ih => exact ih (h.step hp.1) hp.2

/-- What the table promises its callers. -/
structure Safe (w : World T) : Prop where
  /-- A handle that was closed or consumed leads nowhere, and no one acts on a value by it. -/
  stale (handle : Nat) (cell : CellId) (h : (handle, cell) ∈ w.retired) :
    (∀ c, resolve w.slots handle ≠ .ok c) ∧ ∀ t c, (w.callers t).holds ≠ some (handle, c)
  /-- A value is acted on by one caller at a time. -/
  exclusive (t t' : Caller) (handle handle' : Nat) (cell : CellId) (h : (w.callers t).holds = some (handle, cell))
    (h' : (w.callers t').holds = some (handle', cell)) : t = t'
  /-- No value is dropped or consumed twice. -/
  once : w.gone.Nodup
  /-- The value of a handle that was closed or consumed is gone. -/
  ended (handle : Nat) (cell : CellId) (h : (handle, cell) ∈ w.retired) : cell ∈ w.gone
  /-- A value that is not gone is in its cell or with one caller, and there is a handle that leads to it. -/
  present (cell : CellId) (content : Cell T) (h : w.cells[cell]? = some content) :
    cell ∉ w.gone ↔ content.value.isSome ∨ ∃ t value, (w.callers t).owned = some (cell, value)
  reachable (cell : CellId) (h : cell < w.cells.length) (hgone : cell ∉ w.gone) :
    ∃ handle, resolve w.slots handle = .ok cell
  /-- A value that the action of `consume_if` gives back is there under the same handle. -/
  restored (t : Caller) (handle : Nat) (cell : CellId) (owned value : T)
    (h : w.callers t = .consuming handle cell owned) :
    resolve (step w (.giveBack t value)).slots handle = .ok cell ∧
      (step w (.giveBack t value)).cells[cell]? = some ⟨some value, none, false⟩

theorem Inv.safe (h : Inv w) : Safe w where
  stale handle cell hr := by
    have hpast := (h.retired _ hr).1
    exact ⟨hpast.not_resolve, fun t c hholds => hpast.not_resolve c ((h.placed t).held hholds).1⟩
  exclusive t t' handle handle' cell := h.exclusive
  once := h.nodup
  ended handle cell hr := (h.retired _ hr).2
  present cell content hcell := by
    rw [(h.kept cell content hcell).gone, not_and_or, ← Ne, Option.ne_none_iff_isSome]
    simp only [not_forall, not_not]
  reachable cell hlt := (h.kept cell _ (getElem?_eq_getElem hlt)).reachable
  restored t handle cell owned value hplace := by
    have hplaced := h.placed_of hplace
    rw [Ffi.step, hplace]
    exact ⟨hplaced.1, getElem?_set_self (List.getElem?_eq_some_iff.mp hplaced.2).1⟩

/-- **The handle table.**  In every interleaving in which no slot is emptied at its last generation, the table keeps
its promises in every state. -/
theorem run_safe (events : List (Event T)) (h : Permits initial events) : Safe (run (initial : World T) events) :=
  (inv_initial.run h).safe

/-- A value is inserted and its handle closed, while a second caller tries to use it. -/
theorem run_safe_close :
    let w := run (initial : World Nat)
      [.insert 0 7, .start 0 .close 4294967297, .start 1 .use 4294967297, .tryLock 0, .tryLock 1, .finish 0]
    w.retired = [(4294967297, 0)] ∧ (∀ c, resolve w.slots 4294967297 ≠ .ok c) ∧ w.gone.Nodup := by
  intro w
  have hclosing : (run (initial : World Nat) [.insert 0 7, .start 0 .close 4294967297,
      .start 1 .use 4294967297, .tryLock 0, .tryLock 1]).callers 0 = .closing 4294967297 0 := rfl
  have hroom : Slots.nextIndex (initial : World Nat).slots + 1 < 2 ^ 32 := by decide
  have hretired : w.retired = [(4294967297, 0)] := by rfl
  have hsafe : Safe w := by
    refine run_safe _ ⟨hroom, trivial, trivial, trivial, trivial, fun handle cell index generation hholds hdecode => ?_,
      trivial⟩
    cases (congrArg Place.holds hclosing).symm.trans hholds
    cases hdecode
    decide
  exact ⟨hretired, (hsafe.stale 4294967297 0 (by rw [hretired]; exact mem_singleton_self _)).1, hsafe.once⟩

/-! ### The generations of one slot -/

/-- One slot, with a value that no one has locked; the only caller is in no call. -/
structure Shape (w : World Unit) (generation : Nat) (cell : CellId) : Prop where
  slots : w.slots = [⟨generation, some cell⟩]
  cell : w.cells[cell]? = some ⟨some (), none, false⟩
  caller : ∃ last, w.callers 0 = .idle last

/-- The handle of the slot is closed and a new value inserted. -/
def closeAndInsert (handle : Nat) : List (Event Unit) :=
  [.start 0 .close handle, .tryLock 0, .finish 0, .insert 0 ()]

theorem shape_round {w : World Unit} {handle generation : Nat} {cell : CellId} (h : Shape w generation cell)
    (hdecode : decodeHandle handle = .ok (0, generation)) :
    ∃ cell', Shape (run w (closeAndInsert handle)) (nextGeneration generation) cell' ∧
      (run w (closeAndInsert handle)).retired = (handle, cell) :: w.retired := by
  obtain ⟨hslots, hcell, _, hcaller⟩ := h
  have hresolve : resolve w.slots handle = .ok cell :=
    resolve_eq_ok.mpr ⟨0, generation, hdecode, by rw [hslots]; rfl⟩
  have hvacate : vacate w.slots handle cell = .ok [⟨nextGeneration generation, none⟩] := by
    simp [vacate, hdecode, hslots, demandSome, demand]
  refine ⟨w.cells.length, ⟨?_, ?_, ?_⟩, ?_⟩ <;>
    simp [run, closeAndInsert, step, World.start, World.tryLock, World.finishClose, World.insert, World.goto, World.ends,
      World.setCell, insert, hcaller, hresolve, hcell, hvacate]

/-- The handle of the first slot at a generation. -/
theorem exists_handle {generation : Nat} (hpos : 0 < generation) (hlt : generation < 2 ^ 32) :
    ∃ handle, decodeHandle handle = .ok (0, generation) :=
  ⟨_, decode_encode hpos hlt (if_pos (by decide))⟩

/-- After `n` rounds the generation is `n + 1`. -/
theorem shape_rounds (n : Nat) (hn : n + 1 < 2 ^ 32) : ∃ events cell, Shape (run initial events) (n + 1) cell ∧
      (0 < n → ∃ c, (4294967297, c) ∈ (run (initial : World Unit) events).retired) := by
  induction n with
  | zero => exact ⟨[.insert 0 ()], 0, ⟨rfl, rfl, _, rfl⟩, fun h => absurd h (lt_irrefl 0)⟩
  | succ n ih =>
    obtain ⟨events, cell, hshape, hretired⟩ := ih (by omega)
    by_cases hzero : n = 0
    · subst hzero
      obtain ⟨cell', hshape', hretired'⟩ := @shape_round _ 4294967297 _ _ hshape rfl
      refine ⟨events ++ closeAndInsert 4294967297, cell', by rw [run_append]; exact hshape', fun _ => ⟨cell, ?_⟩⟩
      rw [run_append, hretired']
      exact mem_cons_self
    · obtain ⟨handle, hdecode⟩ := exists_handle (succ_pos n) (by omega)
      obtain ⟨cell', hshape', hretired'⟩ := shape_round hshape hdecode
      rw [nextGeneration_eq hn] at hshape'
      obtain ⟨c, hc⟩ := hretired (pos_of_ne_zero hzero)
      refine ⟨events ++ closeAndInsert handle, cell', by rw [run_append]; exact hshape', fun _ => ⟨c, ?_⟩⟩
      rw [run_append, hretired']
      exact mem_cons_of_mem _ hc

/-- The first handle of a slot is closed, and leads to another value after the slot has gone through all of its
generations. -/
theorem closed_handle_resolves :
    ∃ events cell, (∃ c, (4294967297, c) ∈ (run (initial : World Unit) events).retired) ∧
      resolve (run (initial : World Unit) events).slots 4294967297 = .ok cell := by
  obtain ⟨events, cell, hshape, hretired⟩ := shape_rounds 4294967294 (by decide)
  obtain ⟨handle, hdecode⟩ := @exists_handle 4294967295 (by decide) (by decide)
  obtain ⟨cell', hshape', hretired'⟩ := shape_round hshape hdecode
  obtain ⟨c, hc⟩ := hretired (by decide)
  refine ⟨events ++ closeAndInsert handle, cell', ⟨c, ?_⟩, ?_⟩
  · rw [run_append, hretired']
    exact mem_cons_of_mem _ hc
  · rw [run_append]
    exact resolve_eq_ok.mpr ⟨0, 1, rfl, by rw [hshape'.slots]; rfl⟩

end Compukter.Ffi
