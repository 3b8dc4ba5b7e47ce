/-
Reading a byte string from the front.

A reader takes bytes off the front of what is left and may fail.  `Reads x l a` says that `x` takes
exactly the bytes `l`, whatever follows them, and gives `a`; it composes along `>>=`, so that a decoder
is checked against the bytes of its encoder part by part.
-/
import Compukter.Lib.Fallible
import Compukter.Lib.LittleEndian

namespace Compukter

variable {ε α β : Type}

abbrev Cursor (ε α : Type) := StateT (List UInt8) (Except ε) α

namespace Cursor

variable (malformed : ε)

def exact (length : Nat) : Cursor ε (List UInt8) := fun bytes =>
  if length ≤ bytes.length then .ok (bytes.take length, bytes.drop length) else .error malformed

/-- A little-endian number of so many bytes. -/
def number (width : Nat) : Cursor ε Nat := do
  let bytes ← exact malformed width
  return ofBytesLE bytes

def fail (e : ε) : Cursor ε α := fun _ => .error e

def check (x : Except ε α) : Cursor ε α := fun bytes => x.map fun a => (a, bytes)

def finish : Cursor ε Unit := fun bytes =>
  if bytes = [] then .ok ((), bytes) else .error malformed

theorem bind_apply (x : Cursor ε α) (f : α → Cursor ε β) (bytes : List UInt8) :
    (x >>= f) bytes = (x bytes >>= fun r => f r.1 r.2) := rfl

theorem bind_apply_eq_ok {x : Cursor ε α} {f : α → Cursor ε β} {bytes : List UInt8} {r : β × List UInt8} :
    (x >>= f) bytes = .ok r ↔ ∃ a rest, x bytes = .ok (a, rest) ∧ f a rest = .ok r := by
  rw [bind_apply, Fallible.bind_eq_ok]
  constructor
  · rintro ⟨⟨a, rest⟩, hx, hf⟩
    exact ⟨a, rest, hx, hf⟩
  · rintro ⟨a, rest, hx, hf⟩
    exact ⟨(a, rest), hx, hf⟩

@[simp] theorem check_ok (a : α) (bytes : List UInt8) : check (.ok a : Except ε α) bytes = .ok (a, bytes) := rfl

@[simp] theorem check_error (e : ε) (bytes : List UInt8) : check (.error e : Except ε α) bytes = .error e := rfl

/-- The reader takes exactly these bytes. -/
def Reads (x : Cursor ε α) (l : List UInt8) (a : α) : Prop := ∀ rest, x (l ++ rest) = .ok (a, rest)

/-- What a reader does after it has read `l`, whether it then succeeds or not. -/
theorem Reads.bind_apply {x : Cursor ε α} {l : List UInt8} {a : α} (hx : Reads x l a) (f : α → Cursor ε β)
    (rest : List UInt8) : (x >>= f) (l ++ rest) = f a rest := by
  rw [Cursor.bind_apply, hx, Fallible.ok_bind]

theorem Reads.exact (l : List UInt8) : Reads (Cursor.exact malformed l.length) l l := by
  intro rest
  rw [Cursor.exact, if_pos (by simp), List.take_left, List.drop_left]

theorem Reads.number {width n : Nat} (h : n < 256 ^ width) :
    Reads (Cursor.number malformed width) (bytesLE width n) n := by
  intro rest
  have hexact := Reads.exact malformed (bytesLE width n)
  rw [length_bytesLE] at hexact
  rw [Cursor.number, hexact.bind_apply]
  show Except.ok (ofBytesLE (bytesLE width n), rest) = _
  rw [ofBytesLE_bytesLE h]

end Cursor

end Compukter
