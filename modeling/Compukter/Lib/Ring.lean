/-
Ring buffers over a part of a table.

A ring is the `capacity` cells of a table from `start` on; it holds a list from the cell `head` on, and
goes around at its end (`Holds`).  Pushing writes the cell behind the list, popping only moves the head, so
what a ring holds is not affected by cells outside it or behind the list.
-/
import Mathlib.Data.List.Basic

namespace Compukter.Ring

open List

variable {α : Type}

/-- The place of the `i`-th element. -/
def place (start capacity head i : Nat) : Nat := start + (head + i) % capacity

structure Holds (cells : List α) (start capacity head : Nat) (l : List α) : Prop where
  bounded : l.length ≤ capacity
  within : start + capacity ≤ cells.length
  headLt : head < capacity
  cell : ∀ i x, l[i]? = some x → cells[place start capacity head i]? = some x

theorem mod_eq_of_lt {capacity head i : Nat} (hhead : head < capacity) (hi : i ≤ capacity) :
    (head + i) % capacity = if head + i < capacity then head + i else head + i - capacity := by
  split
  case isTrue h => exact Nat.mod_eq_of_lt h
  case isFalse h =>
    rw [Nat.mod_eq_sub_mod (by omega)]
    exact Nat.mod_eq_of_lt (by omega)

/-- Different elements have different places. -/
theorem place_ne {start capacity head i j : Nat} (hhead : head < capacity) (hi : i < capacity)
    (hj : j < capacity) (hne : i ≠ j) : place start capacity head i ≠ place start capacity head j := by
  unfold place
  rw [mod_eq_of_lt hhead (by omega), mod_eq_of_lt hhead (by omega)]
  split <;> split <;> omega

theorem place_bounds {start capacity head i : Nat} (hcapacity : 0 < capacity) :
    start ≤ place start capacity head i ∧ place start capacity head i < start + capacity := by
  have := Nat.mod_lt (head + i) hcapacity
  unfold place
  omega

variable {cells : List α} {start capacity head : Nat} {l : List α} {x : α}

theorem holds_nil (hwithin : start + capacity ≤ cells.length) (hhead : head < capacity) :
    Holds cells start capacity head [] :=
  ⟨Nat.zero_le _, hwithin, hhead, fun i x h => by cases h⟩

theorem Holds.push (h : Holds cells start capacity head l) (hroom : l.length < capacity) (x : α) :
    Holds (cells.set (place start capacity head l.length) x) start capacity head (l ++ [x]) := by
  refine ⟨by rw [length_append]; exact hroom, by simpa using h.within, h.headLt, fun i y hi => ?_⟩
  rcases Nat.lt_trichotomy i l.length with hlt | heq | hgt
  · rw [getElem?_append_left hlt] at hi
    rw [getElem?_set_ne (place_ne h.headLt hroom (by omega) (by omega))]
    exact h.cell i y hi
  · subst heq
    rw [getElem?_concat_length] at hi
    cases hi
    have hplace := @place_bounds start capacity head l.length (by omega)
    have hwithin := h.within
    exact getElem?_set_self (by omega)
  · rw [getElem?_eq_none (by rw [length_append]; exact hgt)] at hi
    cases hi

theorem Holds.first (h : Holds cells start capacity head (x :: l)) : cells[start + head]? = some x := by
  have hcell := h.cell 0 x rfl
  unfold place at hcell
  rwa [Nat.add_zero, Nat.mod_eq_of_lt h.headLt] at hcell

theorem place_succ (start capacity head i : Nat) :
    place start capacity ((head + 1) % capacity) i = place start capacity head (i + 1) := by
  unfold place
  rw [Nat.mod_add_mod, Nat.add_assoc, Nat.add_comm 1 i]

theorem Holds.pop (h : Holds cells start capacity head (x :: l)) :
    Holds cells start capacity ((head + 1) % capacity) l := by
  have hbounded : l.length + 1 ≤ capacity := h.bounded
  refine ⟨by omega, h.within, Nat.mod_lt _ (by omega), fun i y hi => ?_⟩
  have hcell := h.cell (i + 1) y (by rwa [getElem?_cons_succ])
  rwa [place_succ]

/-- A write that meets none of the elements. -/
theorem Holds.set (h : Holds cells start capacity head l) {p : Nat}
    (hp : ∀ i, i < l.length → p ≠ place start capacity head i) (x : α) :
    Holds (cells.set p x) start capacity head l := by
  refine ⟨h.bounded, by simpa using h.within, h.headLt, fun i y hi => ?_⟩
  have hlt : i < l.length := (List.getElem?_eq_some_iff.mp hi).1
  rw [getElem?_set_ne (hp i hlt)]
  exact h.cell i y hi

/-- Cells outside the ring do not matter. -/
theorem Holds.congr (h : Holds cells start capacity head l) {cells' : List α} (hlength : cells'.length = cells.length)
    (hsame : ∀ p, start ≤ p → p < start + capacity → cells'[p]? = cells[p]?) : Holds cells' start capacity head l := by
  refine ⟨h.bounded, hlength ▸ h.within, h.headLt, fun i x hi => ?_⟩
  obtain ⟨hlow, hhigh⟩ := @place_bounds start capacity head i (Nat.zero_lt_of_lt h.headLt)
  rw [hsame _ hlow hhigh]
  exact h.cell i x hi

/-- The cell that was popped may be overwritten. -/
theorem Holds.pop_set (h : Holds cells start capacity head (x :: l)) (y : α) :
    Holds (cells.set (start + head) y) start capacity ((head + 1) % capacity) l := by
  have hbounded : l.length + 1 ≤ capacity := h.bounded
  have hfirst : start + head = place start capacity head 0 := by
    unfold place
    rw [Nat.add_zero, Nat.mod_eq_of_lt h.headLt]
  refine h.pop.set (fun i hi => ?_) y
  rw [hfirst, place_succ]
  exact place_ne h.headLt (by omega) (by omega) (by omega)

/-- Reading the cells from the head on gives the list. -/
theorem Holds.read (h : Holds cells start capacity head l) (default : α) :
    (List.range l.length).map (fun i => cells.getD (place start capacity head i) default) = l := by
  refine ext_getElem (by simp) fun i hi hl => ?_
  rw [getElem_map, getElem_range, getD_eq_getElem?_getD, h.cell i l[i] (getElem?_eq_getElem hl)]
  rfl

end Compukter.Ring
