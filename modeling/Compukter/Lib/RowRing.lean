/-
A grid whose rows are a ring, so that scrolling moves no cell.

The cells lie in one array, row after row, and the row `head` of the array is the first row of the grid.
Scrolling by one row moves the head and overwrites the row that has left at the top, which is then the last
one.  `toList` is the grid as it is read, row by row from the head.
-/
import Mathlib.Data.List.OfFn
import Mathlib.Data.Int.ModEq

open List Nat Function

namespace Compukter

structure RowRing (α : Type) (width height : Nat) where
  cells : Fin (height * width) → α
  head : Fin height

namespace RowRing

variable {α : Type} {width height : Nat}

theorem index_lt {row x : Nat} (hrow : row < height) (hx : x < width) : row * width + x < height * width :=
  calc row * width + x < row * width + width := Nat.add_lt_add_left hx _
    _ = (row + 1) * width := (Nat.succ_mul row width).symm
    _ ≤ height * width := mul_le_mul_right width hrow

variable (g : RowRing α width height) (x : Fin width) (y : Fin height)

/-- Where the cell in column `x` and row `y` of the grid is in the array. -/
def index : Fin (height * width) :=
  ⟨(g.head.val + y.val) % height * width + x.val, index_lt (Nat.mod_lt _ (Nat.zero_lt_of_lt y.isLt)) x.isLt⟩

def get : α := g.cells (g.index x y)

def set (a : α) : RowRing α width height :=
  { g with cells := Function.update g.cells (g.index x y) a }

/-- All rows are `a`, from the first row of the array. -/
def const (a : α) (hheight : 0 < height) : RowRing α width height := ⟨fun _ => a, ⟨0, hheight⟩⟩

/-- The head goes on by one row, and the row before it, which was the first, is overwritten. -/
def scrollOne (fill : α) : RowRing α width height :=
  let head : Fin height := ⟨(g.head.val + 1) % height, Nat.mod_lt _ (Nat.zero_lt_of_lt g.head.isLt)⟩
  let reclaimed := (head.val + height - 1) % height
  { cells := fun i => if reclaimed * width ≤ i.val ∧ i.val < reclaimed * width + width then fill else g.cells i
    head }

def scroll (g : RowRing α width height) (fill : α) : Nat → RowRing α width height
  | 0 => g
  | rows + 1 => (g.scrollOne fill).scroll fill rows

/-- The column and the row of a cell by its number. -/
def column (l : Fin (height * width)) : Fin width :=
  ⟨l.val % width, Nat.mod_lt _ (Nat.pos_of_mul_pos_left (Nat.zero_lt_of_lt l.isLt))⟩

def row (l : Fin (height * width)) : Fin height := ⟨l.val / width, Nat.div_lt_of_lt_mul (Nat.mul_comm height width ▸ l.isLt)⟩

/-- The grid as it is read. -/
def toList : List α := List.ofFn fun l => g.get (column l) (row l)

@[simp] theorem length_toList : g.toList.length = height * width := length_ofFn

theorem getElem?_toList (l : Nat) :
    g.toList[l]? = if h : l < height * width then some (g.get (column ⟨l, h⟩) (row ⟨l, h⟩)) else none :=
  List.getElem?_ofFn ..

-- with the size of a grid known, the list would be computed wherever two grids are compared
attribute [irreducible] toList

/-- Two rings with the same cells at every column and row read alike. -/
theorem toList_ext {g : RowRing α width height} {l : List α} (hlength : l.length = height * width)
    (h : ∀ (x : Fin width) (y : Fin height), l[y.val * width + x.val]? = some (g.get x y)) : g.toList = l := by
  refine ext_getElem? fun i => ?_
  rw [getElem?_toList]
  split
  · next hi =>
    have hcell := h (column ⟨i, hi⟩) (row ⟨i, hi⟩)
    rw [show (row ⟨i, hi⟩).val * width + (column ⟨i, hi⟩).val = i from div_add_mod' i width] at hcell
    exact hcell.symm
  · next hi => exact (getElem?_eq_none (by rw [hlength]; exact Nat.le_of_not_lt hi)).symm

/-- A cell is read where its column and row say. -/
theorem getElem?_toList_cell : g.toList[y.val * width + x.val]? = some (g.get x y) := by
  have hlt := index_lt y.isLt x.isLt
  have hcolumn : column ⟨y.val * width + x.val, hlt⟩ = x := by
    refine Fin.ext ?_
    show (y.val * width + x.val) % width = x.val
    rw [mul_comm, mul_add_mod, mod_eq_of_lt x.isLt]
  have hrow : row ⟨y.val * width + x.val, hlt⟩ = y := by
    refine Fin.ext ?_
    show (y.val * width + x.val) / width = y.val
    rw [mul_comm, mul_add_div (zero_lt_of_lt x.isLt), div_eq_of_lt x.isLt, add_zero]
  rw [getElem?_toList, dif_pos hlt, hcolumn, hrow]

theorem toList_const (a : α) (hheight : 0 < height) :
    (const a hheight : RowRing α width height).toList = List.replicate (height * width) a :=
  toList_ext (by simp) fun x y => getElem?_replicate_of_lt (index_lt y.isLt x.isLt)

/-! ## Writing a cell -/

theorem mul_add_inj {a b x y : Nat} (hx : x < width) (hy : y < width) (h : a * width + x = b * width + y) :
    a = b ∧ x = y := by
  have hdiv := congrArg (· / width) h
  have hmod := congrArg (· % width) h
  have hwidth : 0 < width := zero_lt_of_lt hx
  simp only [mul_comm _ width, mul_add_div hwidth, mul_add_mod, div_eq_of_lt hx, div_eq_of_lt hy,
    mod_eq_of_lt hx, mod_eq_of_lt hy, add_zero] at hdiv hmod
  exact ⟨hdiv, hmod⟩

theorem add_mod_inj {head a b : Nat} (ha : a < height) (hb : b < height) (h : (head + a) % height = (head + b) % height) :
    a = b := by
  have := Nat.ModEq.add_left_cancel' head h
  rwa [Nat.ModEq, mod_eq_of_lt ha, mod_eq_of_lt hb] at this

theorem index_inj {g : RowRing α width height} {x x' : Fin width} {y y' : Fin height} (h : g.index x y = g.index x' y') :
    x = x' ∧ y = y' := by
  obtain ⟨hrow, hx⟩ := mul_add_inj x.isLt x'.isLt (congrArg Fin.val h)
  exact ⟨Fin.ext hx, Fin.ext (add_mod_inj y.isLt y'.isLt hrow)⟩

theorem get_set (x x' : Fin width) (y y' : Fin height) (a : α) :
    (g.set x y a).get x' y' = if x' = x ∧ y' = y then a else g.get x' y' := by
  show update g.cells (g.index x y) a (g.index x' y') = _
  split
  · next h => rw [h.1, h.2, update_self]
  · next h => exact update_of_ne (fun heq => h (index_inj heq)) _ _

theorem toList_set (a : α) : (g.set x y a).toList = g.toList.set (y.val * width + x.val) a := by
  refine toList_ext (by simp) fun x' y' => ?_
  rw [get_set, getElem?_set, length_toList]
  by_cases h : x' = x ∧ y' = y
  · obtain ⟨rfl, rfl⟩ := h
    simp [index_lt y'.isLt x'.isLt]
  · rw [if_neg, if_neg h, getElem?_toList_cell]
    intro heq
    obtain ⟨hy, hx⟩ := mul_add_inj x.isLt x'.isLt heq
    exact h ⟨Fin.ext hx.symm, Fin.ext hy.symm⟩

/-! ## Scrolling -/

/-- The row before the new head is the old head. -/
theorem reclaimed_eq {head : Nat} (h : head < height) : ((head + 1) % height + height - 1) % height = head := by
  rcases lt_or_ge (head + 1) height with hlt | hge
  · rw [mod_eq_of_lt hlt, show head + 1 + height - 1 = head + height by omega, add_mod_right, mod_eq_of_lt h]
  · have heq : head + 1 = height := by omega
    rw [heq, mod_self, zero_add, mod_eq_of_lt (by omega)]
    omega

/-- After a step every row is the one that was below it, and the last row is new. -/
theorem get_scrollOne (fill : α) (x : Fin width) (y : Fin height) :
    (g.scrollOne fill).get x y = if h : y.val + 1 < height then g.get x ⟨y.val + 1, h⟩ else fill := by
  have hrow : ((g.head.val + 1) % height + y.val) % height = (g.head.val + (y.val + 1)) % height := by
    rw [mod_add_mod, add_assoc, add_comm 1]
  have hreclaimed := reclaimed_eq g.head.isLt
  show (if _ then fill else g.cells _) = _
  simp only [index, scrollOne, hrow, hreclaimed]
  by_cases hlast : y.val + 1 < height
  · have hne : (g.head.val + (y.val + 1)) % height ≠ g.head.val := by
      intro heq
      have := @add_mod_inj height g.head.val (y.val + 1) 0 hlast (zero_lt_of_lt y.isLt)
        (by rw [heq, add_zero, mod_eq_of_lt g.head.isLt])
      omega
    rw [if_neg, dif_pos hlast]
    · rfl
    · rintro ⟨hle, hlt⟩
      rcases lt_or_gt_of_ne hne with hless | hgreater
      · have := mul_le_mul_right width hless
        rw [Nat.succ_mul] at this
        omega
      · have := mul_le_mul_right width hgreater
        rw [Nat.succ_mul] at this
        omega
  · have heq : (g.head.val + (y.val + 1)) % height = g.head.val := by
      rw [show y.val + 1 = height by have := y.isLt; omega, add_mod_right, mod_eq_of_lt g.head.isLt]
    rw [if_pos, dif_neg hlast]
    rw [heq]
    exact ⟨Nat.le_add_right _ _, Nat.add_lt_add_left x.isLt _⟩

theorem toList_scrollOne (fill : α) : (g.scrollOne fill).toList = g.toList.drop width ++ List.replicate width fill := by
  have hheight : 0 < height := zero_lt_of_lt g.head.isLt
  have hcount : height * width = (height - 1) * width + width := by
    rw [← Nat.succ_mul, Nat.succ_eq_add_one, Nat.sub_add_cancel hheight]
  refine toList_ext (by simp; omega) fun x y => ?_
  rw [get_scrollOne]
  by_cases hlast : y.val + 1 < height
  · have hlt : y.val * width + x.val < (g.toList.drop width).length := by
      have := index_lt (show y.val < height - 1 by omega) x.isLt
      rw [length_drop, length_toList]
      omega
    rw [dif_pos hlast, getElem?_append_left hlt, getElem?_drop, ← getElem?_toList_cell,
      show width + (y.val * width + x.val) = (y.val + 1) * width + x.val by rw [Nat.succ_mul]; omega]
  · have hy : y.val = height - 1 := by
      omega
    have hlength : (g.toList.drop width).length = y.val * width := by
      rw [length_drop, length_toList, hy]
      omega
    rw [dif_neg hlast, getElem?_append_right (by omega), hlength, Nat.add_sub_cancel_left,
      getElem?_replicate_of_lt x.isLt]

theorem toList_scroll (fill : α) {rows : Nat} (hrows : rows ≤ height) :
    (g.scroll fill rows).toList = g.toList.drop (rows * width) ++ List.replicate (rows * width) fill := by
  induction rows generalizing g with
  | zero => simp [scroll]
  | succ rows ih =>
    have hle : width + rows * width ≤ g.toList.length := by
      rw [length_toList, add_comm, ← Nat.succ_mul]
      exact mul_le_mul_right width hrows
    rw [scroll, ih _ (le_of_succ_le hrows), toList_scrollOne,
      drop_append_of_le_length (by rw [length_drop]; omega), drop_drop, append_assoc,
      replicate_append_replicate, Nat.succ_mul, add_comm width]

/-! ## Writing cells in a row -/

variable (cells : List α) (start : Nat)

/-- The cells from `start` on are those of `new`, as far as these go. -/
def overwrite (new : List α) : List α :=
  cells.mapIdx fun i a => if start ≤ i then new[i - start]?.getD a else a

theorem getElem?_overwrite (new : List α) (i : Nat) :
    (overwrite cells start new)[i]? =
      cells[i]?.map fun a => if start ≤ i then new[i - start]?.getD a else a := getElem?_mapIdx ..

@[simp] theorem overwrite_nil : overwrite cells start [] = cells := by
  refine ext_getElem? fun i => ?_
  rw [getElem?_overwrite]
  simp

/-- Cells that are written one after the other. -/
theorem overwrite_append (new more : List α) :
    overwrite cells start (new ++ more) = overwrite (overwrite cells start new) (start + new.length) more := by
  refine ext_getElem? fun i => ?_
  rw [getElem?_overwrite, getElem?_overwrite, getElem?_overwrite, Option.map_map]
  refine congrArg (cells[i]?.map ·) (funext fun a => ?_)
  simp only [comp]
  by_cases hstart : start ≤ i
  · rw [if_pos hstart, if_pos hstart]
    by_cases hend : start + new.length ≤ i
    · rw [if_pos hend, getElem?_append_right (by omega), getElem?_eq_none (l := new) (by omega),
        Option.getD_none, Nat.sub_sub]
    · rw [if_neg hend, getElem?_append_left (by omega)]
  · rw [if_neg hstart, if_neg hstart, if_neg (by omega)]

theorem overwrite_singleton (a : α) : overwrite cells start [a] = cells.set start a := by
  refine ext_getElem? fun i => ?_
  rw [getElem?_overwrite, getElem?_set]
  by_cases hi : start = i
  · subst hi
    rcases lt_or_ge start cells.length with hlt | hge
    · simp [hlt]
    · simp [not_lt.mpr hge]
  · rw [if_neg hi]
    by_cases hlt : start ≤ i
    · have : ([a] : List α)[i - start]? = none := getElem?_eq_none (by simp; omega)
      simp [hlt, this]
    · simp [hlt]

theorem overwrite_cons (a : α) (new : List α) :
    overwrite cells start (a :: new) = overwrite (cells.set start a) (start + 1) new := by
  rw [← overwrite_singleton, ← singleton_append, overwrite_append]
  rfl

/-- Where all cells are written, nothing is left of the others. -/
theorem overwrite_all {cells new : List α} (h : new.length = cells.length) : overwrite cells 0 new = new := by
  refine ext_getElem? fun i => ?_
  rw [getElem?_overwrite]
  rcases lt_or_ge i cells.length with hlt | hge
  · rw [getElem?_eq_getElem hlt, getElem?_eq_getElem (h ▸ hlt)]
    simp [getElem?_eq_getElem (h ▸ hlt)]
  · have hcells : cells[i]? = none := getElem?_eq_none hge
    have hnew : new[i]? = none := getElem?_eq_none (h ▸ hge)
    rw [hcells, hnew]
    rfl

/-- The cells are written one after the other, as far as there is room. -/
def write (g : RowRing α width height) : Nat → List α → RowRing α width height
  | _, [] => g
  | start, a :: cells =>
    if h : start < height * width then (g.set (column ⟨start, h⟩) (row ⟨start, h⟩) a).write (start + 1) cells
    else g.write (start + 1) cells

theorem toList_write (cells : List α) : (g.write start cells).toList = overwrite g.toList start cells := by
  induction cells generalizing g start with
  | nil => rw [write, overwrite_nil]
  | cons a cells ih =>
    rw [write, overwrite_cons]
    split
    · next h =>
      rw [ih, toList_set, show (row ⟨start, h⟩).val * width + (column ⟨start, h⟩).val = start from
        div_add_mod' start width]
    · next h => rw [ih, set_eq_of_length_le (by rw [length_toList]; exact Nat.le_of_not_lt h)]

/-- One cell is written at each of the places. -/
def setAll (places : List (Fin width × Fin height)) (a : α) : RowRing α width height :=
  places.foldl (fun g p => g.set p.1 p.2 a) g

theorem get_setAll (places : List (Fin width × Fin height)) (a : α) (x : Fin width)
    (y : Fin height) : (g.setAll places a).get x y = if (x, y) ∈ places then a else g.get x y := by
  induction places generalizing g with
  | nil => rfl
  | cons p places ih =>
    rw [setAll, foldl_cons, ← setAll, ih, get_set]
    by_cases hmem : (x, y) ∈ places
    · rw [if_pos hmem, if_pos (mem_cons_of_mem p hmem)]
    · rw [if_neg hmem]
      simp only [mem_cons, hmem, or_false, Prod.ext_iff]

theorem toList_setAll {places : List (Fin width × Fin height)} (a : α)
    {P : Nat → Prop} [DecidablePred P] (h : ∀ x y, (x, y) ∈ places ↔ P (y.val * width + x.val)) :
    (g.setAll places a).toList = g.toList.mapIdx fun i b => if P i then a else b := by
  refine toList_ext (by simp) fun x y => ?_
  rw [getElem?_mapIdx, getElem?_toList_cell, get_setAll]
  simp only [Option.map_some, h]

end RowRing

end Compukter
