/-
The terminal device: its grid, cursor and history, and the operations on them.

Every operation records what it does for the replicas.  The cursor is an exception within an operation: text is
written with the cursor moving along, and its place is recorded once at the end.  `Follows` is therefore about the
screen with a cursor that may be behind the device's own; recording the cursor brings it up to date.
-/
import Compukter.Terminal.Replication

namespace Compukter.Terminal

open Fallible RowRing Nat ReplicationState

structure TerminalDevice where
  grid : RowRing TerminalCell terminalWidth terminalHeight
  history : List TerminalCell
  historyStart : Nat
  cursor : TerminalPosition
  cursorVisible : Bool
  (foreground background : PaletteIndex)
  replication : ReplicationState
  history_le : history.length ≤ terminalHistoryRows * terminalWidth

/-! ## Text -/

/-- The character of a surrogate pair. -/
def surrogatePair (high low : Nat) : Char := Char.ofNat (high % 0x400 * 0x400 + low % 0x400 + 0x10000)

def replacementCharacter : Char := Char.ofNat 0xFFFD

/-- The characters of UTF-16 text.  A surrogate that is not part of a pair stands for the replacement character. -/
def decodeUtf16 : List Nat → List Char
  | [] => []
  | [unit] => [if 0xD800 ≤ unit ∧ unit ≤ 0xDFFF then replacementCharacter else Char.ofNat unit]
  | unit :: next :: units =>
    if unit < 0xD800 ∨ 0xDFFF < unit then Char.ofNat unit :: decodeUtf16 (next :: units)
    else if 0xDC00 ≤ unit then replacementCharacter :: decodeUtf16 (next :: units)
    else if 0xDC00 ≤ next ∧ next ≤ 0xDFFF then surrogatePair unit next :: decodeUtf16 units
    else replacementCharacter :: decodeUtf16 (next :: units)

namespace TerminalDevice

def withConfig (journalRevisions : Nat) : Except TerminalError TerminalDevice :=
  if journalRevisions = 0 then .error .invalidConfig
  else .ok {
    grid := .const defaultCell terminalHeight_pos
    history := []
    historyStart := 0
    cursor := .origin
    cursorVisible := true
    foreground := defaultForeground
    background := defaultBackground
    replication := .new journalRevisions
    history_le := Nat.zero_le _ }

variable (d : TerminalDevice)

/-- What the replicas see. -/
def screen : Screen := ⟨d.grid.toList, d.cursor, d.cursorVisible, d.historyStart, d.history⟩

/-! ## The operations -/

def record (d : TerminalDevice) (change : TerminalChange) : TerminalDevice :=
  { d with replication := d.replication.record change }

def recordCursor : TerminalDevice := d.record (.cursor d.cursor d.cursorVisible)

def setCursor (position : TerminalPosition) : TerminalDevice :=
  if d.cursor = position then d else { d with cursor := position }.recordCursor

def setCursorVisible (visible : Bool) : TerminalDevice :=
  if d.cursorVisible = visible then d else { d with cursorVisible := visible }.recordCursor

def setColors (foreground background : Nat) : Except TerminalError TerminalDevice := do
  let foreground ← validatePalette foreground
  let background ← validatePalette background
  return { d with foreground, background }

def patch (d : TerminalDevice) (start : TerminalPosition) (cells : List TerminalCell) :
    Except TerminalError TerminalDevice :=
  if cellCount < start.logical + cells.length then .error .patchOutOfBounds
  else
    let d := { d with grid := d.grid.write start.logical cells }
    .ok (if cells = [] then d else d.record (.patch start.logical cells))

/-- Text from a place to the end of its row. -/
def writeAt (start : TerminalPosition) (units : List Nat) : Except TerminalError TerminalDevice :=
  let remaining := terminalWidth - start.x.val
  d.patch start (((decodeUtf16 units).take remaining).map fun scalar => ⟨scalar, d.foreground, d.background⟩)

/-- The columns and rows of a rectangle, in the order in which they are filled. -/
def places (r : TerminalRectangle) : List (Fin terminalWidth × Fin terminalHeight) :=
  (List.ofFn fun i : Fin r.height => (⟨r.y + i.val, by have := r.bottom; omega⟩ : Fin terminalHeight)).flatMap fun y =>
    (List.ofFn fun i : Fin r.width => (⟨r.x + i.val, by have := r.right; omega⟩ : Fin terminalWidth)).map fun x => (x, y)

def fill (d : TerminalDevice) (r : TerminalRectangle) (cell : TerminalCell) : TerminalDevice :=
  { d with grid := d.grid.setAll (places r) cell }.record (.fill r.x r.y r.width r.height cell)

def fillWithCurrentColors (r : TerminalRectangle) (codePoint : Nat) :
    Except TerminalError TerminalDevice := do
  let cell ← TerminalCell.new codePoint d.foreground.val d.background.val
  return d.fill r cell

/-- The first rows leave the grid for the history, from which rows are dropped when there are too many. -/
def scrollWith (rows : Nat) (fill : TerminalCell) : TerminalDevice :=
  let firstRow := d.historyStart + d.history.length / terminalWidth
  let removed := d.grid.toList.take (rows * terminalWidth)
  let kept := evict d.historyStart (d.history ++ removed)
  let d := { d with historyStart := kept.1, history := kept.2, history_le := length_evict _ _ }
  let d := if rows = 0 then d else d.record (.historyAppend firstRow removed)
  { d with grid := d.grid.scroll fill rows }

def scroll (d : TerminalDevice) (rows : Nat) : Except TerminalError TerminalDevice :=
  if terminalHeight < rows then .error .scrollOutOfBounds
  else
    let d := d.scrollWith rows defaultCell
    .ok (if rows = 0 then d else d.record (.scroll rows defaultCell))

def carriageReturn : TerminalDevice :=
  { d with cursor := ⟨⟨0, terminalWidth_pos⟩, d.cursor.y⟩ }

def newline : TerminalDevice :=
  let d := d.carriageReturn
  if h : d.cursor.y.val + 1 < terminalHeight then { d with cursor := ⟨d.cursor.x, ⟨d.cursor.y.val + 1, h⟩⟩ }
  else
    let fill := TerminalCell.blank d.foreground d.background
    (d.scrollWith 1 fill).record (.scroll 1 fill)

def writeScalar (scalar : Char) : TerminalDevice :=
  let cell : TerminalCell := ⟨scalar, d.foreground, d.background⟩
  let d := { d with grid := d.grid.set d.cursor.x d.cursor.y cell }.record (.patch d.cursor.logical [cell])
  if h : d.cursor.x.val + 1 < terminalWidth then { d with cursor := ⟨⟨d.cursor.x.val + 1, h⟩, d.cursor.y⟩ }
  else d.newline

def writeDecoded (scalar : Char) : TerminalDevice :=
  if scalar = '\n' then d.newline else if scalar = '\r' then d.carriageReturn else d.writeScalar scalar

def writeUtf16 (units : List Nat) : TerminalDevice :=
  let written := (decodeUtf16 units).foldl writeDecoded d
  if written.cursor = d.cursor then written else written.recordCursor

/-- The place before the cursor, if there is one. -/
def previousPosition (p : TerminalPosition) : Option TerminalPosition :=
  if 0 < p.x.val then some ⟨⟨p.x.val - 1, Nat.lt_of_le_of_lt (Nat.sub_le _ _) p.x.isLt⟩, p.y⟩
  else if 0 < p.y.val then
    some ⟨⟨terminalWidth - 1, Nat.sub_lt terminalWidth_pos Nat.one_pos⟩,
      ⟨p.y.val - 1, Nat.lt_of_le_of_lt (Nat.sub_le _ _) p.y.isLt⟩⟩
  else none

def erasePrevious : TerminalDevice :=
  match previousPosition d.cursor with
  | none => d
  | some position =>
    let blank := TerminalCell.blank d.foreground d.background
    let d := { d with cursor := position, grid := d.grid.set position.x position.y blank }
    (d.record (.patch position.logical [blank])).recordCursor

def clear : TerminalDevice :=
  { d with
    grid := .const defaultCell terminalHeight_pos
    cursor := .origin
    cursorVisible := true
    foreground := defaultForeground
    background := defaultBackground
    replication := d.replication.recordReset }

/-- The last row with something in it. -/
def lastContentRow : Option (Fin terminalHeight) :=
  (List.finRange terminalHeight).reverse.find? fun y =>
    (List.finRange terminalWidth).any fun x => (d.grid.get x y).codePoint ≠ ' '

def resumeConsoleOutput : TerminalDevice :=
  let lastContentRow := d.lastContentRow
  let d := { d with foreground := defaultForeground, background := defaultBackground }.setCursorVisible true
  match lastContentRow.filter (d.cursor.y ≤ ·) with
  | some y => (d.setCursor ⟨⟨0, terminalWidth_pos⟩, y⟩).newline.recordCursor
  | none => d.setCursor ⟨⟨0, terminalWidth_pos⟩, d.cursor.y⟩

/-- `none` is a panic. -/
def commit (d : TerminalDevice) : Option (TerminalCommit × TerminalDevice) := do
  let fullCells := if d.replication.requiresFullReplacement then some d.grid.toList else none
  let (answer, replication) ← d.replication.commit fullCells d.cursor d.cursorVisible d.historyStart d.history
  return (answer, { d with replication })

def snapshot : TerminalSnapshot := ⟨d.replication.revision, d.screen⟩

def changesSince (baseRevision : Nat) : TerminalUpdate :=
  (d.replication.deltaSince baseRevision).getD (.full d.snapshot)

end TerminalDevice

/-- The operations that change the terminal. -/
inductive Mutation where
  | setCursor (position : TerminalPosition)
  | setCursorVisible (visible : Bool)
  | setColors (foreground background : Nat)
  | patch (start : TerminalPosition) (cells : List TerminalCell)
  | writeAt (start : TerminalPosition) (units : List Nat)
  | fill (r : TerminalRectangle) (cell : TerminalCell)
  | fillWithCurrentColors (r : TerminalRectangle) (codePoint : Nat)
  | scroll (rows : Nat)
  | writeUtf16 (units : List Nat)
  | erasePrevious | clear | resumeConsoleOutput

def TerminalDevice.perform (d : TerminalDevice) : Mutation → Except TerminalError TerminalDevice
  | .setCursor position => .ok (d.setCursor position)
  | .setCursorVisible visible => .ok (d.setCursorVisible visible)
  | .setColors foreground background => d.setColors foreground background
  | .patch start cells => d.patch start cells
  | .writeAt start units => d.writeAt start units
  | .fill r cell => .ok (d.fill r cell)
  | .fillWithCurrentColors r codePoint => d.fillWithCurrentColors r codePoint
  | .scroll rows => d.scroll rows
  | .writeUtf16 units => .ok (d.writeUtf16 units)
  | .erasePrevious => .ok d.erasePrevious
  | .clear => .ok d.clear
  | .resumeConsoleOutput => .ok d.resumeConsoleOutput

/-! ## The operations are recorded -/

/-- The pending changes lead from `base` to the screen with the given cursor, and no more was committed than `r`. -/
def Follows (r : ReplicationState) (base : Screen) (cursor : TerminalPosition) (visible : Bool) (d : TerminalDevice) :
    Prop :=
  r.SameCommitted d.replication ∧
    d.replication.Tracks base ⟨d.grid.toList, cursor, visible, d.historyStart, d.history⟩

/-- The changes have led to the screen of the device. -/
abbrev UpToDate (r : ReplicationState) (base : Screen) (d : TerminalDevice) : Prop :=
  Follows r base d.cursor d.cursorVisible d

namespace Follows

variable {r : ReplicationState} {base : Screen} {cursor cursor' : TerminalPosition} {visible visible' : Bool}
  {d d' : TerminalDevice}

/-- A device that has done and recorded a change. -/
theorem record (h : Follows r base cursor visible d) (change : TerminalChange)
    (hchange : applyChange ⟨d.grid.toList, cursor, visible, d.historyStart, d.history⟩ change =
      ⟨d'.grid.toList, cursor', visible', d'.historyStart, d'.history⟩)
    (hrecord : d'.replication = d.replication.record change) : Follows r base cursor' visible' d' := by
  refine ⟨?_, ?_⟩
  · rw [hrecord]
    exact h.1.trans (sameCommitted_record _ _)
  · rw [hrecord, ← hchange]
    exact h.2.record change

theorem recordCursor (h : Follows r base cursor visible d) : Follows r base d.cursor d.cursorVisible d.recordCursor :=
  ⟨h.1.trans (sameCommitted_record _ _), h.2.record (.cursor d.cursor d.cursorVisible)⟩

section

variable (h : UpToDate r base d)
include h

theorem setCursor (position : TerminalPosition) : UpToDate r base (d.setCursor position) := by
  rw [TerminalDevice.setCursor]
  split
  · exact h
  · exact recordCursor (d := { d with cursor := position }) h

theorem setCursorVisible (visible : Bool) : UpToDate r base (d.setCursorVisible visible) := by
  rw [TerminalDevice.setCursorVisible]
  split
  · exact h
  · exact recordCursor (d := { d with cursorVisible := visible }) h

theorem setColors {foreground background : Nat}
    (hok : d.setColors foreground background = .ok d') : UpToDate r base d' := by
  obtain ⟨_, -, hok⟩ := bind_eq_ok.mp hok
  obtain ⟨_, -, hok⟩ := bind_eq_ok.mp hok
  cases hok
  exact h

theorem patch {start : TerminalPosition} {cells : List TerminalCell}
    (hok : d.patch start cells = .ok d') : UpToDate r base d' := by
  rw [TerminalDevice.patch] at hok
  split at hok
  · cases hok
  · cases hok
    have hwrite := toList_write d.grid start.logical cells
    split
    · next hempty =>
      subst hempty
      exact h
    · exact h.record (.patch start.logical cells) (by rw [applyChange, ← hwrite]; rfl) rfl

end

theorem mem_places {q : TerminalRectangle} {x : Fin terminalWidth} {y : Fin terminalHeight} :
    (x, y) ∈ TerminalDevice.places q ↔
      (q.x ≤ x.val ∧ x.val < q.x + q.width) ∧ q.y ≤ y.val ∧ y.val < q.y + q.height := by
  simp only [TerminalDevice.places, List.mem_flatMap, List.mem_map, List.mem_ofFn, Prod.mk.injEq]
  constructor
  · rintro ⟨_, ⟨i, rfl⟩, _, ⟨j, rfl⟩, rfl, rfl⟩
    simp only
    omega
  · rintro ⟨hx, hy⟩
    refine ⟨y, ⟨⟨y.val - q.y, by omega⟩, Fin.ext ?_⟩, x, ⟨⟨x.val - q.x, by omega⟩, Fin.ext ?_⟩, rfl, rfl⟩
    · simp only
      omega
    · simp only
      omega

theorem fill (h : Follows r base cursor visible d) (q : TerminalRectangle) (cell : TerminalCell) :
    Follows r base cursor visible (d.fill q cell) := by
  have hfill : (d.grid.setAll (TerminalDevice.places q) cell).toList =
      d.grid.toList.mapIdx fun i a => if inside q.x q.y q.width q.height i then cell else a := by
    refine toList_setAll d.grid cell fun x y => ?_
    have hcolumn : (y.val * terminalWidth + x.val) % terminalWidth = x.val := by
      rw [mul_comm, mul_add_mod, mod_eq_of_lt x.isLt]
    have hrow : (y.val * terminalWidth + x.val) / terminalWidth = y.val := by
      rw [mul_comm, mul_add_div terminalWidth_pos, div_eq_of_lt x.isLt, add_zero]
    rw [mem_places, inside, hcolumn, hrow]
  exact h.record (.fill q.x q.y q.width q.height cell) (by rw [applyChange, ← hfill]; rfl) rfl

theorem fillWithCurrentColors (h : UpToDate r base d) {q : TerminalRectangle} {codePoint : Nat}
    (hok : d.fillWithCurrentColors q codePoint = .ok d') : UpToDate r base d' := by
  obtain ⟨cell, -, hok⟩ := bind_eq_ok.mp hok
  cases hok
  exact h.fill q cell

/-- Scrolling is recorded in two parts: the rows go to the history, then the grid scrolls. -/
theorem scrollWith (h : Follows r base cursor visible d) {rows : Nat} (hrows : rows ≠ 0) (hle : rows ≤ terminalHeight)
    (fill : TerminalCell) : Follows r base cursor visible ((d.scrollWith rows fill).record (.scroll rows fill)) := by
  let removed := d.grid.toList.take (rows * terminalWidth)
  let firstRow := d.historyStart + d.history.length / terminalWidth
  let kept := evict d.historyStart (d.history ++ removed)
  have happend : Follows r base cursor visible { d with
      historyStart := kept.1
      history := kept.2
      history_le := length_evict _ _
      replication := d.replication.record (.historyAppend firstRow removed) } := by
    refine h.record (.historyAppend firstRow removed) ?_ rfl
    rw [applyChange, if_pos rfl]
  refine happend.record (.scroll rows fill) ?_ ?_
  · rw [applyChange, ← toList_scroll d.grid fill hle]
    simp only [TerminalDevice.scrollWith, TerminalDevice.record, if_neg hrows]
    rfl
  · simp only [TerminalDevice.scrollWith, TerminalDevice.record, if_neg hrows]
    rfl

/-- The cursor stays where it is on the screen. -/
theorem scrollWith_cursor (d : TerminalDevice) (rows : Nat) (fill : TerminalCell) :
    (d.scrollWith rows fill).cursor = d.cursor ∧ (d.scrollWith rows fill).cursorVisible = d.cursorVisible := by
  simp only [TerminalDevice.scrollWith]
  split <;> exact ⟨rfl, rfl⟩

theorem scroll (h : UpToDate r base d) {rows : Nat} (hok : d.scroll rows = .ok d') : UpToDate r base d' := by
  rw [TerminalDevice.scroll] at hok
  split at hok
  · cases hok
  · next hle =>
    cases hok
    split
    · next hrows =>
      -- nothing is removed, and the history fits already
      subst hrows
      have hevict : evict d.historyStart (d.history ++ d.grid.toList.take (0 * terminalWidth)) =
          (d.historyStart, d.history) := by
        rw [zero_mul, List.take_zero, List.append_nil, evict_of_le d.history_le]
      have hscroll : d.scrollWith 0 defaultCell = d := by
        simp only [TerminalDevice.scrollWith, if_pos, hevict, RowRing.scroll]
      rw [hscroll]
      exact h
    · next hrows =>
      have hfollows := h.scrollWith hrows (Nat.le_of_not_lt hle) defaultCell
      obtain ⟨hcursor, hvisible⟩ := scrollWith_cursor d rows defaultCell
      rwa [← hcursor, ← hvisible] at hfollows

/-! ### Text -/

section

variable (h : Follows r base cursor visible d)
include h

theorem newline : Follows r base cursor visible d.newline := by
  rw [TerminalDevice.newline]
  split
  · exact h
  · exact scrollWith (d := d.carriageReturn) h one_ne_zero (by decide) _

theorem writeScalar (scalar : Char) : Follows r base cursor visible (d.writeScalar scalar) := by
  rw [TerminalDevice.writeScalar]
  have hset : Follows r base cursor visible
      ({ d with grid := d.grid.set d.cursor.x d.cursor.y ⟨scalar, d.foreground, d.background⟩ }.record
        (.patch d.cursor.logical [⟨scalar, d.foreground, d.background⟩])) := by
    refine h.record (.patch d.cursor.logical [⟨scalar, d.foreground, d.background⟩]) ?_ rfl
    rw [applyChange, overwrite_singleton, TerminalPosition.logical, ← toList_set]
    rfl
  split
  · exact hset
  · exact hset.newline

theorem writeDecoded (scalar : Char) : Follows r base cursor visible (d.writeDecoded scalar) := by
  rw [TerminalDevice.writeDecoded]
  split
  · exact h.newline
  · split
    · exact h
    · exact h.writeScalar scalar

theorem foldl_writeDecoded (scalars : List Char) :
    Follows r base cursor visible (scalars.foldl TerminalDevice.writeDecoded d) := by
  induction scalars generalizing d with
  | nil => exact h
  | cons scalar _ ih => exact ih (h.writeDecoded scalar)

end

theorem newline_visible (d : TerminalDevice) : d.newline.cursorVisible = d.cursorVisible := by
  rw [TerminalDevice.newline]
  split
  · rfl
  · exact (scrollWith_cursor d.carriageReturn 1 (.blank d.foreground d.background)).2

/-- Writing text does not show or hide the cursor. -/
theorem foldl_writeDecoded_visible (d : TerminalDevice) (scalars : List Char) :
    (scalars.foldl TerminalDevice.writeDecoded d).cursorVisible = d.cursorVisible := by
  induction scalars generalizing d with
  | nil => rfl
  | cons _ _ ih =>
    rw [List.foldl_cons, ih, TerminalDevice.writeDecoded]
    split
    · exact newline_visible d
    · split
      · rfl
      · rw [TerminalDevice.writeScalar]
        split
        · rfl
        · exact newline_visible _

/-- The cursor is recorded if it ends somewhere else than it was. -/
theorem writeUtf16 (h : UpToDate r base d) (units : List Nat) : UpToDate r base (d.writeUtf16 units) := by
  have hwritten := h.foldl_writeDecoded (decodeUtf16 units)
  rw [TerminalDevice.writeUtf16]
  split
  · next heq =>
    rw [UpToDate, heq, foldl_writeDecoded_visible]
    exact hwritten
  · exact hwritten.recordCursor

theorem erasePrevious (h : UpToDate r base d) : UpToDate r base d.erasePrevious := by
  rw [TerminalDevice.erasePrevious]
  split
  · exact h
  · next position _ =>
    let blank := TerminalCell.blank d.foreground d.background
    have hset : Follows r base d.cursor d.cursorVisible
        ({ d with cursor := position, grid := d.grid.set position.x position.y blank }.record
          (.patch position.logical [blank])) := by
      refine h.record (.patch position.logical [blank]) ?_ rfl
      rw [applyChange, overwrite_singleton, TerminalPosition.logical, ← toList_set]
      rfl
    exact hset.recordCursor

theorem clear (h : Follows r base cursor visible d) : UpToDate r base d.clear := by
  refine ⟨h.1.trans (sameCommitted_recordReset _), ?_⟩
  have hreset := h.2.recordReset
  have hconst : (RowRing.const defaultCell terminalHeight_pos : RowRing TerminalCell terminalWidth terminalHeight).toList =
      List.replicate cellCount defaultCell := toList_const defaultCell terminalHeight_pos
  rw [applyChange, ← hconst] at hreset
  exact hreset

theorem resumeConsoleOutput (h : UpToDate r base d) : UpToDate r base d.resumeConsoleOutput := by
  have hvisible := setCursorVisible
    (d := { d with foreground := defaultForeground, background := defaultBackground }) h true
  rw [TerminalDevice.resumeConsoleOutput]
  split
  · exact (hvisible.setCursor _).newline.recordCursor
  · exact hvisible.setCursor _

/-- Every operation that is carried out is recorded. -/
theorem perform (h : UpToDate r base d) {mutation : Mutation}
    (hok : d.perform mutation = .ok d') : UpToDate r base d' := by
  cases mutation with
  | setCursor position =>
    cases hok
    exact h.setCursor position
  | setCursorVisible visible =>
    cases hok
    exact h.setCursorVisible visible
  | setColors => exact h.setColors hok
  | patch | writeAt => exact h.patch hok
  | fill q cell =>
    cases hok
    exact h.fill q cell
  | fillWithCurrentColors => exact h.fillWithCurrentColors hok
  | scroll => exact h.scroll hok
  | writeUtf16 units =>
    cases hok
    exact h.writeUtf16 units
  | erasePrevious =>
    cases hok
    exact h.erasePrevious
  | clear =>
    cases hok
    exact h.clear
  | resumeConsoleOutput =>
    cases hok
    exact h.resumeConsoleOutput

end Follows

end Compukter.Terminal
