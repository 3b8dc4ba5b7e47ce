/-
The handle table of the foreign interface, with its callers interleaved.

A handle is a slot number and the slot's generation.  The table is behind a lock, and each value is behind a lock
of its own, so that a call is several atomic steps: it looks its handle up under the table's lock, tries the lock
of the value, acts, and where it empties the slot it takes the table's lock again while it still holds the value's.

A cell is its number, which is never used again.  `World` has beside the table the history the results are about:
whose value is gone, and which handles were closed or consumed.
-/
import Compukter.Lib.Fallible

namespace Compukter.Ffi

open Fallible

inductive HandleError where
  | invalid | stale | busy | exhausted | poisoned
  deriving DecidableEq

abbrev CellId := Nat

abbrev Caller := Nat

structure Slot where
  generation : Nat
  value : Option CellId
  deriving DecidableEq

/-- A value behind its lock, with the caller that holds the lock. -/
structure Cell (T : Type) where
  value : Option T
  holder : Option Caller
  poisoned : Bool
  deriving DecidableEq

/-! ## Handles -/

def encodeHandle (index generation : Nat) : Except HandleError Nat :=
  if index + 1 < 2 ^ 32 then .ok (generation * 2 ^ 32 + (index + 1)) else .error .exhausted

def decodeHandle (handle : Nat) : Except HandleError (Nat × Nat) :=
  let slot := handle % 2 ^ 32
  let generation := handle / 2 ^ 32 % 2 ^ 32
  if slot = 0 ∨ generation = 0 then .error .invalid else .ok (slot - 1, generation)

/-- The generations wrap around; zero is left out, since no handle has it. -/
def nextGeneration (generation : Nat) : Nat :=
  let next := (generation + 1) % 2 ^ 32
  if next = 0 then 1 else next

/-! ## What is done under the table's lock -/

def resolve (slots : List Slot) (handle : Nat) : Except HandleError CellId := do
  let (index, generation) ← decodeHandle handle
  let slot ← demandSome slots[index]? .invalid
  demand (slot.generation == generation) .stale
  demandSome slot.value .stale

/-- The slots with a new cell in the first free one, and the handle of it. -/
def insert (slots : List Slot) (cell : CellId) : Except HandleError Nat × List Slot :=
  match slots.findIdx? (·.value.isNone) with
  | some index =>
    (encodeHandle index ((slots[index]?.map Slot.generation).getD 1),
      slots.modify index fun slot => { slot with value := some cell })
  | none => (encodeHandle slots.length 1, slots ++ [⟨1, some cell⟩])

/-- The end of `close` and `consume_if`: the slot is emptied, if it is still the one that was looked up. -/
def vacate (slots : List Slot) (handle : Nat) (cell : CellId) : Except HandleError (List Slot) := do
  let (index, generation) ← decodeHandle handle
  let slot ← demandSome slots[index]? .invalid
  demand (slot.generation == generation && slot.value == some cell) .stale
  return slots.set index ⟨nextGeneration slot.generation, none⟩

/-! ## The callers -/

/-- The calls that take a handle. -/
inductive Call where
  | use | close | consumeIf
  deriving DecidableEq

/-- What a call returns when it does not fail. -/
inductive Reply where
  | inserted (handle : Nat)
  | used | closed | consumed
  /-- `consume_if` whose action gave the value back. -/
  | refused
  deriving DecidableEq

/-- Where a caller is. -/
inductive Place (T : Type) where
  /-- In no call; the last one ended so, or with a panic of its action. -/
  | idle (last : Option (Except HandleError Reply))
  /-- The handle was looked up, the value's lock is next. -/
  | resolved (call : Call) (handle : Nat) (cell : CellId)
  /-- In the action of `with`. -/
  | acting (handle : Nat) (cell : CellId)
  /-- In `close`, the table's lock is next. -/
  | closing (handle : Nat) (cell : CellId)
  /-- In the action of `consume_if`, which has the value. -/
  | consuming (handle : Nat) (cell : CellId) (owned : T)
  /-- In `consume_if` after its action has used up the value, the table's lock is next. -/
  | consumed (handle : Nat) (cell : CellId)

variable {T : Type}

/-- The cell whose lock the caller holds, with the handle it came by. -/
def Place.holds : Place T → Option (Nat × CellId)
  | .idle _ | .resolved .. => none
  | .acting handle cell | .closing handle cell | .consuming handle cell _ | .consumed handle cell => some (handle, cell)

/-- The value the caller has taken out of a cell. -/
def Place.owned : Place T → Option (CellId × T)
  | .consuming _ cell owned => some (cell, owned)
  | _ => none

structure World (T : Type) where
  slots : List Slot
  cells : List (Cell T)
  callers : Caller → Place T
  /-- The cells whose value was dropped or consumed, once for each time. -/
  gone : List CellId
  /-- The handles that were closed or consumed, with the cells they stood for. -/
  retired : List (Nat × CellId)

namespace World

def initial : World T := ⟨[], [], fun _ => .idle none, [], []⟩

variable (w : World T) (t : Caller)

def goto (place : Place T) : World T :=
  { w with callers := Function.update w.callers t place }

def ends (result : Except HandleError Reply) : World T := w.goto t (.idle (some result))

variable (cell : CellId)

def setCell (content : Cell T) : World T :=
  { w with cells := w.cells.set cell content }

/-- `insert`, all of it under the table's lock. -/
def insert (w : World T) (t : Caller) (value : T) : World T :=
  let (handle, slots) := Ffi.insert w.slots w.cells.length
  ({ w with slots, cells := w.cells ++ [⟨some value, none, false⟩] } : World T).ends t (handle.map .inserted)

/-- The start of the other calls. -/
def start (call : Call) (handle : Nat) : World T :=
  match resolve w.slots handle with
  | .ok cell => w.goto t (.resolved call handle cell)
  | .error e => w.ends t (.error e)

/-- The value's lock is tried; whoever gets it finds the value or nothing. -/
def tryLock (call : Call) (handle : Nat) (cell : CellId) : World T :=
  match w.cells[cell]? with
  | none => w
  | some content =>
    if content.holder.isSome then w.ends t (.error .busy)
    else if content.poisoned then w.ends t (.error .poisoned)
    else match content.value with
      | none => w.ends t (.error .stale)
      | some value => match call with
        | .use => (w.setCell cell { content with holder := some t }).goto t (.acting handle cell)
        | .close => (w.setCell cell { content with holder := some t }).goto t (.closing handle cell)
        | .consumeIf =>
          (w.setCell cell { content with value := none, holder := some t }).goto t (.consuming handle cell value)

/-- The action of `with` has left `value`. -/
def used (w : World T) (t : Caller) (cell : CellId) (value : T) : World T :=
  (w.setCell cell ⟨some value, none, false⟩).ends t (.ok .used)

/-- The action of `with` has panicked and left `value`: the lock is poisoned. -/
def usePanics (value : T) : World T :=
  (w.setCell cell ⟨some value, none, true⟩).goto t (.idle none)

/-- The action of `consume_if` has returned an error and a value. -/
def giveBack (restored : T) : World T :=
  (w.setCell cell ⟨some restored, none, false⟩).ends t (.ok .refused)

/-- The action of `consume_if` has used up the value. -/
def useUp (handle : Nat) (cell : CellId) : World T :=
  ({ w with gone := cell :: w.gone } : World T).goto t (.consumed handle cell)

/-- The action of `consume_if` has panicked: the value is dropped, and the lock is poisoned. -/
def consumePanics : World T :=
  (({ w with gone := cell :: w.gone } : World T).setCell cell ⟨none, none, true⟩).goto t (.idle none)

/-- The end of `close`: the value is dropped with the slot emptied. -/
def finishClose (handle : Nat) (cell : CellId) : World T :=
  match vacate w.slots handle cell with
  | .error e => (w.setCell cell { value := (w.cells[cell]?).bind Cell.value, holder := none, poisoned := false }).ends t
      (.error e)
  | .ok slots =>
    (({ w with slots, gone := cell :: w.gone, retired := (handle, cell) :: w.retired } : World T).setCell cell
      ⟨none, none, false⟩).ends t (.ok .closed)

/-- The end of `consume_if`: the cell is empty already. -/
def finishConsume (handle : Nat) (cell : CellId) : World T :=
  match vacate w.slots handle cell with
  | .error e => (w.setCell cell ⟨none, none, false⟩).ends t (.error e)
  | .ok slots =>
    (({ w with slots, retired := (handle, cell) :: w.retired } : World T).setCell cell ⟨none, none, false⟩).ends t
      (.ok .consumed)

end World

/-- One atomic step of one caller.  The actions are the callers' own: they leave or give back any value. -/
inductive Event (T : Type) where
  | insert (t : Caller) (value : T)
  | start (t : Caller) (call : Call) (handle : Nat)
  | tryLock (t : Caller)
  | used (t : Caller) (value : T)
  | usePanics (t : Caller) (value : T)
  | giveBack (t : Caller) (restored : T)
  | useUp (t : Caller)
  | consumePanics (t : Caller)
  | finish (t : Caller)

/-- A caller that is not where the event happens does nothing. -/
def step (w : World T) : Event T → World T
  | .insert t value => match w.callers t with
    | .idle _ => w.insert t value
    | _ => w
  | .start t call handle => match w.callers t with
    | .idle _ => w.start t call handle
    | _ => w
  | .tryLock t => match w.callers t with
    | .resolved call handle cell => w.tryLock t call handle cell
    | _ => w
  | .used t value => match w.callers t with
    | .acting _ cell => w.used t cell value
    | _ => w
  | .usePanics t value => match w.callers t with
    | .acting _ cell => w.usePanics t cell value
    | _ => w
  | .giveBack t restored => match w.callers t with
    | .consuming _ cell _ => w.giveBack t cell restored
    | _ => w
  | .useUp t => match w.callers t with
    | .consuming handle cell _ => w.useUp t handle cell
    | _ => w
  | .consumePanics t => match w.callers t with
    | .consuming _ cell _ => w.consumePanics t cell
    | _ => w
  | .finish t => match w.callers t with
    | .closing handle cell => w.finishClose t handle cell
    | .consumed handle cell => w.finishConsume t handle cell
    | _ => w

/-- An interleaving of the callers. -/
def run (w : World T) (events : List (Event T)) : World T := events.foldl step w

end Compukter.Ffi
