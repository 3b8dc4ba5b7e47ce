/-
What a terminal shows, and the changes by which a replica follows it.

`Screen` is what is replicated: the cells, the cursor and the retained history.  `applyChange` is the meaning of a
`TerminalChange`.

Some changes overwrite, so that they may be applied twice, and some do not: scrolling and appending to the
history.  Two facts are behind the way the device collects changes.  Patches that touch are one patch
(`overwrite_append`), and what comes before a reset matters only for the history (`applyAll_reset`).
-/
import Compukter.Lib.RowRing
import Compukter.Lib.Fallible

namespace Compukter.Terminal

open Fallible RowRing

def terminalWidth : Nat := 51

def terminalHeight : Nat := 19

def terminalHistoryRows : Nat := 512

def cellCount : Nat := terminalHeight * terminalWidth

theorem terminalHeight_pos : 0 < terminalHeight := by decide

theorem terminalWidth_pos : 0 < terminalWidth := by decide

inductive TerminalError where
  | invalidPosition | invalidRectangle | invalidUnicodeScalar | invalidPaletteIndex
  | patchOutOfBounds | scrollOutOfBounds | invalidConfig
  deriving DecidableEq

/-! ## Cells and positions -/

abbrev PaletteIndex := Fin 16

def validatePalette (index : Nat) : Except TerminalError PaletteIndex :=
  if h : index < 16 then .ok ⟨index, h⟩ else .error .invalidPaletteIndex

structure TerminalCell where
  codePoint : Char
  (foreground background : PaletteIndex)
  deriving DecidableEq

namespace TerminalCell

def new (codePoint foreground background : Nat) : Except TerminalError TerminalCell := do
  let codePoint ← if h : codePoint.isValidChar then .ok (Char.ofNatAux codePoint h) else .error .invalidUnicodeScalar
  let foreground ← validatePalette foreground
  let background ← validatePalette background
  return ⟨codePoint, foreground, background⟩

def blank (foreground background : PaletteIndex) : TerminalCell := ⟨' ', foreground, background⟩

end TerminalCell

def defaultForeground : PaletteIndex := 15

def defaultBackground : PaletteIndex := 0

def defaultCell : TerminalCell := .blank defaultForeground defaultBackground

structure TerminalPosition where
  x : Fin terminalWidth
  y : Fin terminalHeight
  deriving DecidableEq

namespace TerminalPosition

def new (x y : Nat) : Except TerminalError TerminalPosition :=
  if h : x < terminalWidth ∧ y < terminalHeight then .ok ⟨⟨x, h.1⟩, ⟨y, h.2⟩⟩ else .error .invalidPosition

def origin : TerminalPosition := ⟨⟨0, terminalWidth_pos⟩, ⟨0, terminalHeight_pos⟩⟩

/-- The number of the cell, row by row. -/
def logical (p : TerminalPosition) : Nat := p.y.val * terminalWidth + p.x.val

end TerminalPosition

structure TerminalRectangle where
  (x y width height : Nat)
  width_pos : 0 < width
  height_pos : 0 < height
  right : x + width ≤ terminalWidth
  bottom : y + height ≤ terminalHeight

def TerminalRectangle.new (x y width height : Nat) : Except TerminalError TerminalRectangle :=
  if h : 0 < width ∧ 0 < height ∧ x + width ≤ terminalWidth ∧ y + height ≤ terminalHeight then
    .ok ⟨x, y, width, height, h.1, h.2.1, h.2.2.1, h.2.2.2⟩
  else .error .invalidRectangle

/-! ## Changes -/

inductive TerminalChange where
  | patch (start : Nat) (cells : List TerminalCell)
  | fill (x y width height : Nat) (cell : TerminalCell)
  | scroll (rows : Nat) (fill : TerminalCell)
  | cursor (position : TerminalPosition) (visible : Bool)
  | reset
  | historyAppend (firstRow : Nat) (cells : List TerminalCell)
  | historyReplace (firstRow : Nat) (cells : List TerminalCell)
  deriving DecidableEq

structure Screen where
  cells : List TerminalCell
  cursor : TerminalPosition
  visible : Bool
  historyStart : Nat
  history : List TerminalCell
  deriving DecidableEq

/-- The loop that takes whole rows from the front while there are too many cells. -/
def evictLoop : Nat → Nat → List TerminalCell → Nat × List TerminalCell
  | 0, start, history => (start, history)
  | fuel + 1, start, history =>
    if terminalHistoryRows * terminalWidth < history.length then
      evictLoop fuel (start + 1) (history.drop terminalWidth)
    else (start, history)

/-- The number of the first row that is kept, and the cells of the rows from there on. -/
def evict (start : Nat) (history : List TerminalCell) : Nat × List TerminalCell :=
  evictLoop history.length start history

/-- The fuel is enough: what is left fits. -/
theorem length_evictLoop (fuel start : Nat) (history : List TerminalCell) (h : history.length ≤ fuel) :
    (evictLoop fuel start history).2.length ≤ terminalHistoryRows * terminalWidth := by
  induction fuel generalizing start history with
  | zero => exact Nat.le_trans h (Nat.zero_le _)
  | succ fuel ih =>
    rw [evictLoop]
    split
    · refine ih _ _ ?_
      have := terminalWidth_pos
      rw [List.length_drop]
      omega
    · next hle => exact Nat.le_of_not_lt hle

theorem length_evict (start : Nat) (history : List TerminalCell) :
    (evict start history).2.length ≤ terminalHistoryRows * terminalWidth :=
  length_evictLoop _ _ _ (Nat.le_refl _)

theorem evict_of_le {start : Nat} {history : List TerminalCell}
    (h : history.length ≤ terminalHistoryRows * terminalWidth) : evict start history = (start, history) := by
  rw [evict]
  cases history.length with
  | zero => rfl
  | succ => rw [evictLoop, if_neg (Nat.not_lt.mpr h)]

/-- The cell number `i` is in the rectangle. -/
def inside (x y width height i : Nat) : Prop :=
  (x ≤ i % terminalWidth ∧ i % terminalWidth < x + width) ∧ y ≤ i / terminalWidth ∧ i / terminalWidth < y + height

instance (x y width height i : Nat) : Decidable (inside x y width height i) := by
  unfold inside
  infer_instance

variable (s : Screen)

/-- The meaning of a change.  Rows are appended to the history where it ends, or not at all. -/
def applyChange : TerminalChange → Screen
  | .patch start cells => { s with cells := overwrite s.cells start cells }
  | .fill x y width height cell =>
    { s with cells := s.cells.mapIdx fun i a => if inside x y width height i then cell else a }
  | .scroll rows fill =>
    { s with cells := s.cells.drop (rows * terminalWidth) ++ List.replicate (rows * terminalWidth) fill }
  | .cursor position visible => { s with cursor := position, visible }
  | .reset => { s with cells := List.replicate cellCount defaultCell, cursor := .origin, visible := true }
  | .historyAppend firstRow cells =>
    if firstRow = s.historyStart + s.history.length / terminalWidth then
      let (historyStart, history) := evict s.historyStart (s.history ++ cells)
      { s with historyStart, history }
    else s
  | .historyReplace firstRow cells => { s with historyStart := firstRow, history := cells }

def applyAll (changes : List TerminalChange) : Screen := changes.foldl applyChange s

@[simp] theorem applyAll_nil : applyAll s [] = s := rfl

theorem applyAll_append (changes more : List TerminalChange) :
    applyAll s (changes ++ more) = applyAll (applyAll s changes) more := List.foldl_append ..

theorem applyAll_concat (changes : List TerminalChange) (change : TerminalChange) :
    applyAll s (changes ++ [change]) = applyChange (applyAll s changes) change := applyAll_append s changes [change]

/-! ## Resets -/

def TerminalChange.ofHistory : TerminalChange → Bool
  | .historyAppend .. | .historyReplace .. => true
  | _ => false

/-- The screens have the same history. -/
def SameHistory (s s' : Screen) : Prop := s.historyStart = s'.historyStart ∧ s.history = s'.history

theorem applyChange_sameHistory {s s' : Screen} (h : SameHistory s s') (change : TerminalChange) :
    SameHistory (applyChange s change) (applyChange s' change) := by
  obtain ⟨hstart, hhistory⟩ := h
  cases change with
  | historyAppend =>
    simp only [applyChange, hstart, hhistory]
    split
    · exact ⟨rfl, rfl⟩
    · exact ⟨hstart, hhistory⟩
  | historyReplace => exact ⟨rfl, rfl⟩
  | _ => exact ⟨hstart, hhistory⟩

theorem sameHistory_applyChange {s : Screen} {change : TerminalChange} (h : change.ofHistory = false) :
    SameHistory (applyChange s change) s := by
  cases change with
  | historyAppend | historyReplace => cases h
  | _ => exact ⟨rfl, rfl⟩

/-- The history is the work of the changes to it. -/
theorem applyAll_filter (s s' : Screen) (h : SameHistory s s') (changes : List TerminalChange) :
    SameHistory (applyAll s (changes.filter TerminalChange.ofHistory)) (applyAll s' changes) := by
  induction changes generalizing s s' with
  | nil => exact h
  | cons change _ ih =>
    cases hchange : change.ofHistory with
    | true =>
      rw [List.filter_cons_of_pos hchange]
      exact ih _ _ (applyChange_sameHistory h change)
    | false =>
      rw [List.filter_cons_of_neg (by rw [hchange]; exact Bool.false_ne_true)]
      have hsame := @sameHistory_applyChange s' change hchange
      exact ih s (applyChange s' change) ⟨h.1.trans hsame.1.symm, h.2.trans hsame.2.symm⟩

/-- What was done before a reset is seen in the history only. -/
theorem applyAll_reset (changes : List TerminalChange) :
    applyAll s (changes.filter TerminalChange.ofHistory ++ [.reset]) = applyAll s (changes ++ [.reset]) := by
  obtain ⟨hstart, hhistory⟩ := applyAll_filter s s ⟨rfl, rfl⟩ changes
  rw [applyAll_concat, applyAll_concat, applyChange, applyChange, hstart, hhistory]

end Compukter.Terminal
