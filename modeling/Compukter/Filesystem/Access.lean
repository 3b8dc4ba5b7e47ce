/-
Capabilities and open files.

A capability is the authority over one subtree, with a set of rights.  A handle names a slot of the table
of open files together with the generation of the slot, so that it stays stale once its file was closed.
-/
import Compukter.Filesystem.Path

namespace Compukter.Filesystem

open Fallible

/-! ## Capabilities -/

/-- A set of rights, one bit for each. -/
abbrev FileRights := BitVec 16

namespace FileRights

def INSPECT : FileRights := 1 <<< 0
def LIST : FileRights := 1 <<< 1
def READ : FileRights := 1 <<< 2
def CREATE : FileRights := 1 <<< 3
def WRITE : FileRights := 1 <<< 4
def DELETE : FileRights := 1 <<< 5
def RENAME : FileRights := 1 <<< 6
def EXECUTE : FileRights := 1 <<< 7
def OWNER : FileRights := (1 <<< 8) - 1

/-- All of the required rights are there. -/
def contains (rights required : FileRights) : Bool := rights &&& required == required

/-- Who has two rights has the second. -/
theorem contains_right {rights a b : FileRights} (h : contains rights (a ||| b) = true) : contains rights b = true := by
  rw [contains, beq_iff_eq] at h ⊢
  ext i hi
  have hbit := congrArg (fun r => r[i]) h
  simp only [BitVec.getElem_and, BitVec.getElem_or] at hbit ⊢
  cases hr : rights[i] <;> simp_all

end FileRights

/-- The authority over a subtree.  Only the limit of handles is enforced by the calls. -/
structure FileCapability where
  root : VirtualPath
  rights : FileRights
  (logicalByteLimit operationLimit handleLimit : Nat)
  deriving DecidableEq

namespace FileCapability

/-- A capability without limits. -/
def new (root : VirtualPath) (rights : FileRights) : FileCapability :=
  ⟨root, rights, 2 ^ 64 - 1, 2 ^ 64 - 1, 2 ^ 32 - 1⟩

/-- The path is in the subtree, and the rights are there. -/
def permits (capability : FileCapability) (path : VirtualPath) (required : FileRights) : Bool :=
  isWithin path capability.root && capability.rights.contains required

theorem permits_right {capability : FileCapability} {path : VirtualPath} {a b : FileRights}
    (h : capability.permits path (a ||| b) = true) : capability.permits path b = true := by
  rw [permits, Bool.and_eq_true] at h ⊢
  exact ⟨h.1, FileRights.contains_right h.2⟩

end FileCapability

/-! ## Open files -/

/-- A slot of the table, as it was when the file was opened. -/
structure FileHandle where
  (slot generation : Nat)
  deriving DecidableEq

/-- What a handle is opened for. -/
inductive OpenMode where
  | read | write | readWrite
  deriving DecidableEq

def OpenMode.readable : OpenMode → Bool
  | .read | .readWrite => true
  | .write => false

def OpenMode.writable : OpenMode → Bool
  | .write | .readWrite => true
  | .read => false

/-- What a capability must allow for a file to be opened. -/
def openRights (mode : OpenMode) : FileRights :=
  FileRights.INSPECT ||| (if mode.readable then FileRights.READ else 0) |||
    (if mode.writable then FileRights.WRITE else 0)

/-- A file is opened by its path, and looked up again with each call. -/
structure OpenFile where
  path : VirtualPath
  mode : OpenMode
  deriving DecidableEq

/-- A slot is retired when its generations are used up. -/
structure HandleSlot where
  generation : Nat
  file : Option OpenFile
  retired : Bool
  deriving DecidableEq

/-- The open files. -/
structure HandleTable where
  maximumHandles : Nat
  slots : List HandleSlot
  deriving DecidableEq

namespace HandleTable

def new (maximumHandles : Nat) : HandleTable := ⟨maximumHandles, []⟩

variable (table : HandleTable)

/-- The first free slot is taken, or a new one. -/
def openFile (file : OpenFile) : Except FileSystemError (FileHandle × HandleTable) :=
  match table.slots.findIdx? (fun entry => entry.file.isNone && !entry.retired) with
  | some slot =>
    let generation := (table.slots[slot]?.map HandleSlot.generation).getD 0
    .ok (⟨slot, generation⟩,
      { table with slots := table.slots.modify slot fun entry => { entry with file := some file } })
  | none =>
    if table.slots.length ≥ table.maximumHandles || table.slots.length > 2 ^ 32 - 1 then .error .quotaExceeded
    else .ok (⟨table.slots.length, 1⟩, { table with slots := table.slots ++ [⟨1, some file, false⟩] })

/-- The file of a handle that is not stale. -/
def get (handle : FileHandle) : Except FileSystemError OpenFile := do
  let slot ← demandSome table.slots[handle.slot]? .staleHandle
  demand (slot.generation == handle.generation) .staleHandle
  demandSome slot.file .staleHandle

/-- The slot moves on to its next generation. -/
def close (handle : FileHandle) : Except FileSystemError HandleTable := do
  let slot ← demandSome table.slots[handle.slot]? .staleHandle
  demand (slot.generation == handle.generation && slot.file.isSome) .staleHandle
  let closed : HandleSlot :=
    if slot.generation + 1 < 2 ^ 32 then { slot with file := none, generation := slot.generation + 1 }
    else { slot with file := none, retired := true }
  return { table with slots := table.slots.set handle.slot closed }

/-- The number of open files. -/
def openCount : Nat := (table.slots.filter (·.file.isSome)).length

end HandleTable

end Compukter.Filesystem
